import PkiEnroll.Url.Host

namespace PkiEnroll

inductive Url.Scheme where
  | http
  | https
  /-- In lower case. -/
  | other (name : String)
  deriving DecidableEq, Repr

/-- A URL in the normal form in which it is compared and sent. -/
structure Url where
  scheme : Url.Scheme
  username : String
  password : Option String
  host : Option Url.Host
  /-- The port, unless it is the scheme's own. -/
  port : Option Nat
  path : String
  query : Option String
  fragment : Option String
  deriving DecidableEq, Repr

namespace Url

namespace Scheme

def ofName (name : String) : Scheme :=
  if name = "http" then http else if name = "https" then https else other name

def text : Scheme → String
  | http => "http"
  | https => "https"
  | other name => name

def defaultPort? : Scheme → Option Nat
  | http | other "ws" => some 80
  | https | other "wss" => some 443
  | other "ftp" => some 21
  | other _ => none

def isWebLike : Scheme → Bool
  | http | https => true
  | other name => ["ws", "wss", "ftp"].contains name

end Scheme

def scheme? (cs : List Char) : Option (String × List Char) :=
  let name := cs.takeWhile fun c => c.isAlphanum || c = '+' || c = '-' || c = '.'
  match name, cs.drop name.length with
  | first :: _, ':' :: rest =>
    if first.isAlpha then some (String.ofList (name.map Char.toLower), rest) else none
  | _, _ => none

def isSlash (special : Bool) (c : Char) : Bool := c = '/' || (special && c = '\\')

def endsAuthority (special : Bool) (c : Char) : Bool := isSlash special c || c = '?' || c = '#'

/-- The user information before the last at sign of the authority, if there is one, and the rest. -/
def splitUserInfo (authority : List Char) : Option (List Char) × List Char :=
  let after := (authority.reverse.takeWhile (· ≠ '@')).reverse
  if after.length = authority.length then (none, authority)
  else (some (authority.take (authority.length - after.length - 1)), after)

/-- Splits at the colon before the port, which is the first outside square brackets. -/
def splitPort (inBrackets : Bool) : List Char → List Char × Option (List Char)
  | [] => ([], none)
  | c :: rest =>
    if c = ':' ∧ !inBrackets then ([], some rest)
    else
      let (host, port) := splitPort (if c = '[' then true else if c = ']' then false else inBrackets) rest
      (c :: host, port)

def port? : List Char → Except Problem (Option Nat)
  | [] => .ok none
  | digits =>
    if digits.all Char.isDigit then
      let n := digits.foldl (fun n c => 10 * n + (c.toNat - 48)) 0
      if n < 65536 then .ok (some n) else .error .port
    else .error .port

def isDot (segment : List Char) : Bool :=
  [".", "%2e"].contains (String.ofList (segment.map Char.toLower))

def isDoubleDot (segment : List Char) : Bool :=
  ["..", ".%2e", "%2e.", "%2e%2e"].contains (String.ofList (segment.map Char.toLower))

/-- Resolves dot segments. `before` holds the segments already passed, the last first. -/
def resolveDots (before : List (List Char)) : List (List Char) → List (List Char)
  | [] => before.reverse
  | segment :: more =>
    let isLast := more.isEmpty
    let before :=
      if isDoubleDot segment then if isLast then [] :: before.drop 1 else before.drop 1
      else if isDot segment then if isLast then [] :: before else before
      else segment :: before
    resolveDots before more

def pathOf (cs : List Char) : String :=
  let cs := cs.map fun c => if c = '\\' then '/' else c
  let cs := if cs.head? = some '/' then cs.drop 1 else cs
  "/" ++ "/".intercalate ((resolveDots [] (cs.splitOn '/')).map (Percent.encode Percent.path))

def partAfter (mark : Char) (set : List Char) (cs : List Char) : Option String :=
  match cs with
  | c :: rest => if c = mark then some (Percent.encode set rest) else none
  | [] => none

/-- The user name and the password, which is after the first colon and not empty. -/
def credentials (info : List Char) : String × Option String :=
  let name := info.takeWhile (· ≠ ':')
  let password := (info.drop name.length).drop 1
  (Percent.encode Percent.userInfo name,
    if password.isEmpty then none else some (Percent.encode Percent.userInfo password))

def ofAuthority (scheme : Scheme) (cs : List Char) : Except Problem Url := do
  let authority := cs.takeWhile fun c => !endsAuthority true c
  let rest := cs.drop authority.length
  let (info, place) := splitUserInfo authority
  let (hostText, portText) := splitPort false place
  let host ← Host.ofText? hostText
  let port ← port? (portText.getD [])
  let (username, password) := credentials (info.getD [])
  let path := rest.takeWhile fun c => c ≠ '?' ∧ c ≠ '#'
  let rest := rest.drop path.length
  let query := rest.takeWhile (· ≠ '#')
  let fragment := rest.drop query.length
  return {
    scheme, username, password
    host := some host
    port := port.filter (some · ≠ scheme.defaultPort?)
    path := pathOf path
    query := partAfter '?' Percent.query query
    fragment := partAfter '#' Percent.fragment fragment }

/-- A URL that nothing is sent to. What stands after its host is kept as it is. -/
def unsent (scheme : Scheme) (host : Option Host) (rest : List Char) : Url :=
  ⟨scheme, "", none, host, none, String.ofList rest, none, none⟩

/-- The host of an authority, which need not have one. -/
def unsentHost? (authority : List Char) : Except Problem (Option Host) := do
  let (info, place) := splitUserInfo authority
  let (hostText, portText) := splitPort false place
  match hostText with
  | [] => if (info.getD []).isEmpty ∧ portText.isNone then return none else throw .emptyHost
  | '[' :: bracketed => do
    let host ← Host.ofBracketed? bracketed
    let _ ← port? (portText.getD [])
    return some host
  | _ => do
    let _ ← port? (portText.getD [])
    return some (.domain (String.ofList hostText))

def ofOther (scheme : Scheme) : List Char → Except Problem Url
  | '/' :: '/' :: rest => do
    let authority := rest.takeWhile fun c => !endsAuthority false c
    return unsent scheme (← unsentHost? authority) (rest.drop authority.length)
  | rest => .ok (unsent scheme none rest)

/-- The host of a file is a computer, but neither this one nor a drive. -/
def fileHost? (name : List Char) : Except Problem (Option Host) := do
  match name with
  | [] | [_, ':'] | [_, '|'] => return none
  | _ =>
    let host ← Host.ofText? name
    return if host = .domain "localhost" then none else some host

def ofFile (rest : List Char) : Except Problem Url := do
  match rest with
  | a :: b :: rest =>
    if isSlash true a && isSlash true b then
      let name := rest.takeWhile fun c => !endsAuthority true c
      return unsent (.other "file") (← fileHost? name) (rest.drop name.length)
    else return unsent (.other "file") none (a :: b :: rest)
  | rest => return unsent (.other "file") none rest

/-- Reads a URL. Controls and blanks around it do not count, nor do line ends and tabs inside. -/
def ofText? (s : String) : Except Problem Url :=
  let isBlank (c : Char) : Bool := c.toNat ≤ 0x20
  let trimmed := ((s.toList.dropWhile isBlank).reverse.dropWhile isBlank).reverse
  match scheme? (trimmed.filter fun c => c ≠ '\t' ∧ c ≠ '\n' ∧ c ≠ '\x0d') with
  | none => .error .relative
  | some (name, rest) =>
    let scheme := Scheme.ofName name
    if scheme.isWebLike then ofAuthority scheme (rest.dropWhile (isSlash true))
    else if name = "file" then ofFile rest
    else ofOther scheme rest

def target (u : Url) : String := u.path ++ (u.query.map ("?" ++ ·)).getD ""

def text (u : Url) : String :=
  let info :=
    match u.username, u.password with
    | "", none => ""
    | name, none => name ++ "@"
    | name, some password => name ++ ":" ++ password ++ "@"
  let authority := u.host.map fun host =>
    "//" ++ info ++ host.text ++ (u.port.map fun p => ":" ++ Nat.repr p).getD ""
  u.scheme.text ++ ":" ++ authority.getD "" ++ u.target ++ (u.fragment.map ("#" ++ ·)).getD ""

end Url

end PkiEnroll
