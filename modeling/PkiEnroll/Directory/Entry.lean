import PkiEnroll.Directory.Basic

namespace PkiEnroll.Directory

open Document X509 Cmp Protection

inductive Format where
  | json
  | toml
  deriving DecidableEq, Repr

abbrev Files := String → Option Bytes

namespace Files

/-- A path, read from its end, without the separators and the single dots after them that end it. -/
def trimmed : List Char → List Char
  | ['/'] => ['/']
  | '/' :: before => trimmed before
  | '.' :: '/' :: before => trimmed ('/' :: before)
  | path => path

/-- The last component of a path and what stands before it, both read from the end. -/
def splitLast (path : String) : List Char × List Char :=
  let path := trimmed path.toList.reverse
  let name := path.takeWhile (· ≠ '/')
  (name, if name.isEmpty then [] else trimmed (path.drop name.length))

def parent (path : String) : String := String.ofList (splitLast path).2.reverse

/-- What stands after the last dot of the last component, when something stands before the dot. -/
def extension? (path : String) : Option String :=
  let name := (splitLast path).1
  let extension := name.takeWhile (· ≠ '.')
  if extension.length + 1 < name.length ∧ name ≠ ['.', '.'] then some (String.ofList extension.reverse)
  else none

/-- A path in a directory; an absolute one stays, and the empty directory is the current one. -/
def join (directory path : String) : String :=
  if path.toList.head? = some '/' ∨ directory.isEmpty then path
  else if directory.toList.getLast? = some '/' then directory ++ path
  else directory ++ "/" ++ path

end Files

/-- How an entry says that a client proves who it is; a signing client names files. -/
inductive Entry.Identification where
  | sharedSecret (iak rv : String)
  | files (certificate privateKey : String)
  deriving DecidableEq, Repr

structure Entry where
  caName : String
  url : String
  issuerDn : String
  mode : Mode
  authentication : Entry.Identification
  caCertificate : Option String
  implicitConfirm : Option Bool
  deriving DecidableEq, Repr

namespace Entry

/-- The values of named fields. They are the members of a table, or the items of a list in the order
of the names; a list in JSON has no more of them. -/
def fields? (format : Format) (names : List String) : Value → Option (List (Option Value))
  | .table members => do
    let members ← members.mapM fun (key, value) => key.map fun k => (k, value)
    names.mapM fun name =>
      match members.filter (·.1 = name) with
      | [] => some none
      | [(_, value)] => some (some value)
      | _ => none
  | .list items =>
    if format = .json ∧ names.length < items.length then none
    else some ((List.range names.length).map fun i => items[i]?)
  | _ => none

def text? : Value → Option String
  | .text t => t
  | _ => none

def requiredText? (v : Option Value) : Option String := v >>= text?

/-- A mode is named by a text, or by the key of a table that holds nothing else. -/
def mode? (format : Format) : Option Value → Option Mode
  | none => some .client
  | some (.text (some name)) => Mode.ofName? name
  | some (.table [(some name, inner)]) =>
    match format, inner with
    | .json, .null | .toml, .list [] | .toml, .table [] => Mode.ofName? name
    | _, _ => none
  | _ => none

def onlyText? (members : List (Option String × Value)) (key : String) : Option String :=
  match members.filter (·.1 = some key) with
  | [(_, value)] => text? value
  | _ => none

/-- No more lists and tables are read inside each other in the authentication of an entry, which is
itself three levels deep in its document. -/
def maxDepth : Nat := 124

/-- A key and its reference come before files. -/
def authentication? (v : Option Value) : Option Identification := do
  let v ← v
  if maxDepth < (← v.depth?) then none
  else
    match v with
    | .table members =>
      (do return .sharedSecret (← onlyText? members "iak") (← onlyText? members "rv")) <|>
        do return .files (← onlyText? members "certificate") (← onlyText? members "privateKey")
    | _ => none

def optionalText? : Option Value → Option (Option String)
  | none | some .null => some none
  | some v => (text? v).map some

def optionalBool? : Option Value → Option (Option Bool)
  | none | some .null => some none
  | some (.bool b) => some (some b)
  | _ => none

def ofValue? (format : Format) (v : Value) : Option Entry := do
  let names := ["caName", "url", "issuerDN", "caMode", "authentication", "caCertificate", "implicitConfirm"]
  match ← fields? format names v with
  | [caName, url, issuerDn, mode, authentication, caCertificate, implicitConfirm] =>
    return {
      caName := ← requiredText? caName
      url := ← requiredText? url
      issuerDn := ← requiredText? issuerDn
      mode := ← mode? format mode
      authentication := ← authentication? authentication
      caCertificate := ← optionalText? caCertificate
      implicitConfirm := ← optionalBool? implicitConfirm }
  | _ => none

def listOfValue? (format : Format) (v : Value) : Option (List Entry) := do
  match ← fields? format ["cmpv2Servers"] v with
  | [some (.list items)] => items.mapM (ofValue? format)
  | _ => none

def listOfText? (read : Readers) (format : Format) (text : String) : Option (List Entry) :=
  (match format with
    | .json => read.json text
    | .toml => read.toml text) >>= listOfValue? format

def unreadable (path : String) : Failure := .configuration ("Cannot read " ++ path)

def readFile (files : Files) (path : String) : Except Failure Bytes :=
  orFail (unreadable path) (files path)

def authenticate (files : Files) (directory : String) (e : Entry) : Except Failure Authentication :=
  match e.authentication with
  | .sharedSecret iak rv => .ok (.sharedSecret iak rv)
  | .files certificate privateKey => do
    let certificatePem ← readFile files (Files.join directory certificate)
    let keyPem ← readFile files (Files.join directory privateKey)
    return .signature (← Credential.ofPem certificatePem keyPem)

def pinned (files : Files) (directory : String) (e : Entry) : Except Failure (Option Certificate) :=
  match e.caCertificate with
  | none => .ok none
  | some path => do
    let pem ← readFile files (Files.join directory path)
    return some (← orFail (.configuration "No CA certificate found") (← certificates pem).head?)

def draft (e : Entry) (authentication : Authentication) (caCertificate : Option Certificate) : Draft where
  caName := some e.caName
  url := some e.url
  issuerDn := some e.issuerDn
  mode := e.mode
  authentication := some authentication
  caCertificate := caCertificate
  implicitConfirm := e.implicitConfirm

/-- Reads the files that an entry names and checks what they and the entry say. -/
def descriptor (read : Readers) (files : Files) (directory : String) (e : Entry) :
    Except Failure Descriptor := do
  let authentication ← e.authenticate files directory
  let caCertificate ← e.pinned files directory
  Descriptor.ofDraft (e.draft authentication caCertificate) read

end Entry

/-- Reads a document whose files are looked up in `directory`. -/
def ofText (files : Files) (directory : String) (format : Format) (text : String)
    (read : Readers := .standard) : Except Failure Directory := do
  let entries ← orFail (.configuration ("Invalid server config: " ++ Failure.malformedDetail))
    (Entry.listOfText? read format text)
  ofList (← entries.mapM (Entry.descriptor read files directory))

/-- Reads a file, which is TOML if its name says so and JSON otherwise. -/
def ofFile (files : Files) (path : String) (read : Readers := .standard) : Except Failure Directory := do
  let text ← orFail (Entry.unreadable path) (files path >>= Bytes.toString?)
  ofText files (Files.parent path)
    (if Files.extension? path = some "toml" then .toml else .json) text read

end PkiEnroll.Directory
