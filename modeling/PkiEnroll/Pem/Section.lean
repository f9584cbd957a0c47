import PkiEnroll.Pem.Base64

namespace PkiEnroll.Pem

/-- The labels whose blocks are decoded. -/
inductive Label where
  | certificate
  | publicKey
  | rsaPrivateKey
  | privateKey
  | ecPrivateKey
  | revocationList
  | certificateRequest
  | echConfig
  deriving DecidableEq, Repr

namespace Label

def text : Label → String
  | certificate => "CERTIFICATE"
  | publicKey => "PUBLIC KEY"
  | rsaPrivateKey => "RSA PRIVATE KEY"
  | privateKey => "PRIVATE KEY"
  | ecPrivateKey => "EC PRIVATE KEY"
  | revocationList => "X509 CRL"
  | certificateRequest => "CERTIFICATE REQUEST"
  | echConfig => "ECHCONFIG"

def all : List Label :=
  [certificate, publicKey, rsaPrivateKey, privateKey, ecPrivateKey, revocationList,
    certificateRequest, echConfig]

def ofBytes? (b : Bytes) : Option Label := all.find? fun l => Bytes.ofString l.text = b

end Label

structure Section where
  label : Label
  content : Bytes
  deriving DecidableEq, Repr

inductive Problem where
  /-- A line that begins like the beginning of a block and does not end like it. -/
  | beginning
  | base64
  | unclosed
  deriving DecidableEq, Repr

namespace Problem

def message : Problem → String
  | beginning => "illegal section start"
  | base64 => "invalid base64"
  | unclosed => "missing section end"

end Problem

/-- Lines with their ends; a carriage return ends one as well as a line feed. -/
def lines : Bytes → List Bytes
  | [] => []
  | c :: rest =>
    if c = 10 ∨ c = 13 then [c] :: lines rest
    else
      match lines rest with
      | [] => [[c]]
      | line :: more => (c :: line) :: more

def beginMark : Bytes := Bytes.ofString "-----BEGIN "
def endMark (label : Bytes) : Bytes := Bytes.ofString "-----END " ++ label ++ Bytes.ofString "-----"

/-- Counts the hyphens at the end of a line, from the end, with blanks between them; what stands
before the last one counted is the second part. -/
def trailingHyphens : Nat → Bytes → Bytes → Nat × Bytes
  | count, before, [] => (count, before)
  | count, before, c :: rest =>
    if c = 45 then trailingHyphens (count + 1) rest rest
    else if c = 10 ∨ c = 13 ∨ c = 32 then trailingHyphens count before rest
    else (count, before)

/-- What a line says when it begins like the beginning of a block: the label, if five hyphens end
the line. -/
def labelOf? (line : Bytes) : Option (Option Bytes) :=
  if beginMark.isPrefixOf line then
    let reversed := (line.drop beginMark.length).reverse
    let (count, before) := trailingHyphens 0 reversed reversed
    some (if count = 5 then some before.reverse else none)
  else none

/-- The block that the reader is in, and the lines gathered since the last result. -/
structure Reading where
  label : Option Bytes
  gathered : Bytes

/-- Reads line after line. A block that begins inside another takes its place but not its lines; a
block with an unknown label is passed over. -/
def readLines (state : Reading) : List Bytes → List (Except Problem Section)
  | [] => if state.label.isSome then [.error .unclosed] else []
  | line :: rest =>
    match labelOf? line, state.label with
    | some none, _ => .error .beginning :: readLines ⟨none, []⟩ rest
    | some (some label), _ => readLines ⟨some label, state.gathered⟩ rest
    | none, none => readLines state rest
    | none, some label =>
      if (endMark label).isPrefixOf line then
        match Label.ofBytes? label with
        | none => readLines ⟨none, []⟩ rest
        | some known =>
          (match Base64.decode? state.gathered with
            | some content => .ok ⟨known, content⟩
            | none => .error .base64) :: readLines ⟨none, []⟩ rest
      else readLines ⟨some label, state.gathered ++ line⟩ rest

def sections (text : Bytes) : List (Except Problem Section) := readLines ⟨none, []⟩ (lines text)

/-- The first block that `pick` wants, unless something is wrong before it. -/
def first? {α : Type} (pick : Section → Option α) : List (Except Problem Section) → Except Problem (Option α)
  | [] => .ok none
  | .error p :: _ => .error p
  | .ok s :: rest =>
    match pick s with
    | some a => .ok (some a)
    | none => first? pick rest

def encode (s : Section) : String :=
  let body := (Bytes.pieces 64 (Base64.encode s.content)).map fun line =>
    String.ofList (line.map fun c => Char.ofNat c.toNat) ++ "\n"
  "-----BEGIN " ++ s.label.text ++ "-----\n" ++ String.join body ++ "-----END " ++ s.label.text ++
    "-----\n"

end PkiEnroll.Pem
