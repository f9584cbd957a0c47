import PkiEnroll.Der.Element

namespace PkiEnroll.Der

/-- Types whose values are elements. `accepts` names the tags that such an element may carry. -/
class Encoding (α : Type) where
  accepts : Tag → Bool
  toElement : α → Element
  ofElement? : Element → Option α

/-- Types with a tag of their own, for which only the contents remain to be described. -/
class Content (α : Type) where
  tag : Tag
  content : α → Bytes
  ofContent? : Bytes → Option α

instance {α : Type} [Content α] : Encoding α where
  accepts t := t = Content.tag α
  toElement a := ⟨Content.tag α, Content.content a⟩
  ofElement? e := if e.tag = Content.tag α then Content.ofContent? e.content else none

instance : Encoding Element where
  accepts _ := true
  toElement e := e
  ofElement? e := some e

def encode {α : Type} [Encoding α] (a : α) : Bytes := (Encoding.toElement a).encode

/-- Reads a byte string that encodes one value and nothing more. -/
def decode? {α : Type} [Encoding α] (b : Bytes) : Option α :=
  Element.ofBytes? b >>= Encoding.ofElement?

instance {α : Type} [Encoding α] : Content (List α) where
  tag := sequenceTag
  content as := as.flatMap encode
  ofContent? b := Element.readAll b >>= List.mapM Encoding.ofElement?

/-- The contents of an explicit tag: one element and nothing more. -/
def wrap {α : Type} [Encoding α] (n : TagNumber) (a : α) : Element := ⟨.context true n, encode a⟩

def optionalField {α : Type} [Encoding α] : Option α → Bytes
  | none => []
  | some a => encode a

def wrappedField {α : Type} [Encoding α] (n : TagNumber) (a : α) : Bytes := (wrap n a).encode

def explicitField {α : Type} [Encoding α] (n : TagNumber) : Option α → Bytes
  | none => []
  | some a => wrappedField n a

/-- An implicit tag takes the place of the type's own and keeps its constructed bit. -/
def implicitElement {α : Type} [Content α] (n : TagNumber) (a : α) : Element :=
  ⟨.context (Content.tag α).isConstructed n, Content.content a⟩

def implicitField {α : Type} [Content α] (n : TagNumber) : Option α → Bytes
  | none => []
  | some a => (implicitElement n a).encode

/-- A reader of the fields of a structure: takes elements off the front of a list. -/
abbrev Fields := StateT (List Element) Option

namespace Fields

def next : Fields Element
  | [] => none
  | e :: es => some (e, es)

def required {α : Type} [Encoding α] : Fields α := do
  let e ← next
  (Encoding.ofElement? e : Option α)

/-- The next element, which has to be tagged `[n]`. -/
def wrapped {α : Type} [Encoding α] (n : TagNumber) : Fields α := do
  let e ← next
  (if e.tag = .context true n then decode? e.content else none : Option α)

/-- The next element belongs to the field when its tag fits; otherwise the field is absent. -/
def optional {α : Type} [Encoding α] : Fields (Option α)
  | [] => some (none, [])
  | e :: es =>
    if Encoding.accepts α e.tag then (Encoding.ofElement? e).map fun a => (some a, es)
    else some (none, e :: es)

/-- Elements with a lower context-specific number are passed over before field `n`. -/
def isBelow (n : TagNumber) (e : Element) : Bool :=
  match e.tag with
  | .context _ m => m < n
  | _ => false

/-- The element tagged `[n]`, with its constructed bit. -/
def tagged (n : TagNumber) : Fields (Option (Bool × Bytes)) := fun es =>
  match es.dropWhile (isBelow n) with
  | [] => some (none, [])
  | e :: rest =>
    match e.tag with
    | .context constructed m =>
      if m = n then some (some (constructed, e.content), rest) else some (none, e :: rest)
    | _ => some (none, e :: rest)

def explicit {α : Type} [Encoding α] (n : TagNumber) : Fields (Option α) := do
  match ← tagged n with
  | none => return none
  | some (true, content) => some <$> (decode? content : Option α)
  | some (false, _) => failure

def implicit {α : Type} [Content α] (n : TagNumber) : Fields (Option α) := do
  match ← tagged n with
  | none => return none
  | some (constructed, content) =>
    if constructed = (Content.tag α).isConstructed then
      some <$> (Content.ofContent? content : Option α)
    else failure

/-- Runs a reader over the contents of a structure; every element has to be used. -/
def read? {α : Type} (fields : Fields α) (content : Bytes) : Option α := do
  let es ← Element.readAll content
  match fields es with
  | some (a, []) => return a
  | _ => none

end Fields

/-- Byte strings in lexicographic order, a proper beginning first. -/
def bytesLt (a b : Bytes) : Bool := List.lex a b

/-- SET OF: the members in the order of their encodings, none twice. -/
structure SetOf (α : Type) where
  members : List α
  deriving DecidableEq, Repr

namespace SetOf

variable {α : Type} [Encoding α]

/-- Puts a member in its place among sorted ones; there is no place beside an equal encoding. -/
def insert? (a : α) : List α → Option (List α)
  | [] => some [a]
  | b :: bs =>
    if bytesLt (encode a) (encode b) then some (a :: b :: bs)
    else if encode a = encode b then none
    else (insert? a bs).map (b :: ·)

def ofList? (as : List α) : Option (SetOf α) :=
  (as.foldlM (fun sorted a => insert? a sorted) []).map SetOf.mk

instance : Content (SetOf α) where
  tag := .universal .set
  content s := s.members.flatMap encode
  ofContent? b := Element.readAll b >>= List.mapM Encoding.ofElement? >>= ofList?

end SetOf

end PkiEnroll.Der
