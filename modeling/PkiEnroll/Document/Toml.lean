import PkiEnroll.Document.Json

namespace PkiEnroll.Document.Toml

/-- Where a table comes from. -/
inductive Origin where
  | implicit
  | dotted
  | header
  deriving DecidableEq, Repr

inductive Node where
  | leaf (value : Value)
  | table (origin : Origin) (entries : List (String × Node))
  | tables (members : List (List (String × Node)))

abbrev Entries := List (String × Node)

def put (key : String) (node : Node) : Entries → Entries
  | [] => [(key, node)]
  | (k, n) :: more => if k = key then (key, node) :: more else (k, n) :: put key node more

/-- Goes down a path, making what is missing, and changes the entries found there. Of an array of
tables the last one is meant. `change` learns whether the table comes from a key with dots. -/
def within (dotted : Bool) (change : Bool → Entries → Option Entries) :
    List String → Bool → Entries → Option Entries
  | [], isDotted, entries => change isDotted entries
  | key :: path, _, entries =>
    match entries.lookup key with
    | none => do
      let inner ← within dotted change path dotted []
      return put key (.table (if dotted then .dotted else .implicit) inner) entries
    | some (.leaf _) => none
    | some (.table origin inner) =>
      if dotted ∧ origin = .header then none
      else do
        let inner ← within dotted change path (origin = .dotted) inner
        return put key (.table origin inner) entries
    | some (.tables members) =>
      match members.reverse with
      | [] => none
      | last :: before => do
        let inner ← within dotted change path false last
        return put key (.tables (inner :: before).reverse) entries

inductive Statement where
  | tableHeader (path : List String)
  | arrayHeader (path : List String)
  | assignment (path : List String) (value : Value)

/-- Opens a table, which may so far be there only because of tables inside it. -/
def openTable (key : String) (entries : Entries) : Option Entries :=
  match entries.lookup key with
  | none => some (put key (.table .header []) entries)
  | some (.table .implicit inner) => some (put key (.table .header inner) entries)
  | _ => none

def openMember (key : String) (entries : Entries) : Option Entries :=
  match entries.lookup key with
  | none => some (put key (.tables [[]]) entries)
  | some (.tables members) => some (put key (.tables (members ++ [[]])) entries)
  | _ => none

/-- Assigns a value to a new key of a table that dots may reach. -/
def assign (path : List String) (key : String) (value : Value) : Entries → Option Entries :=
  within true (fun isDotted entries =>
    if (path.isEmpty ∨ isDotted) ∧ (entries.lookup key).isNone then
      some (put key (.leaf value) entries)
    else none) path false

/-- Applies statements in order; `place` is the path of the last header. -/
def apply (place : List String) (entries : Entries) : List Statement → Option Entries
  | [] => some entries
  | .tableHeader path :: more => do
    let key ← path.getLast?
    let entries ← within false (fun _ => openTable key) path.dropLast false entries
    apply path entries more
  | .arrayHeader path :: more => do
    let key ← path.getLast?
    let entries ← within false (fun _ => openMember key) path.dropLast false entries
    apply path entries more
  | .assignment path value :: more => do
    let key ← path.getLast?
    let entries ← within false (fun _ => assign path.dropLast key value) place false entries
    apply place entries more

mutual

def Node.value : Node → Value
  | .leaf v => v
  | .table _ entries => .table (entryValues entries)
  | .tables members => .list (memberValues members)

def entryValues : List (String × Node) → List (Option String × Value)
  | [] => []
  | (key, node) :: more => (some key, node.value) :: entryValues more

def memberValues : List (List (String × Node)) → List Value
  | [] => []
  | entries :: more => .table (entryValues entries) :: memberValues more

end

def assemble? (statements : List Statement) : Option Value :=
  (apply [] [] statements).map fun entries => .table (entryValues entries)

def skipBlank (cs : List Char) : List Char := cs.dropWhile fun c => c = ' ' || c = '\t'

def isPlain (c : Char) : Bool := c = '\t' || (0x20 ≤ c.toNat && c.toNat ≠ 0x7f)

def skipComment : List Char → List Char
  | '#' :: rest => rest.dropWhile isPlain
  | cs => cs

def newline? : List Char → Option (List Char)
  | '\n' :: rest => some rest
  | '\x0d' :: '\n' :: rest => some rest
  | _ => none

def endOfLine? (cs : List Char) : Option (List Char) :=
  match skipComment (skipBlank cs) with
  | [] => some []
  | cs => newline? cs

/-- Passes blanks, comments and lines; each line is shorter than `bound`. -/
def skipLines : Nat → List Char → List Char
  | 0, cs => cs
  | bound + 1, cs =>
    let cs := skipBlank cs
    match newline? (skipComment cs) with
    | some rest => skipLines bound rest
    | none => cs

def charOf? (n : Nat) : Option Char :=
  if n < 0xd800 ∨ (0xe000 ≤ n ∧ n < 0x110000) then some (Char.ofNat n) else none

def readEscape? : List Char → Option (Char × List Char)
  | 'u' :: a :: b :: c :: d :: rest => do
    return (← Json.hexNumber? [a, b, c, d] >>= charOf?, rest)
  | 'U' :: a :: b :: c :: d :: e :: f :: g :: h :: rest => do
    return (← Json.hexNumber? [a, b, c, d, e, f, g, h] >>= charOf?, rest)
  | c :: rest =>
    if c = '/' then none else (Json.simpleEscape? c).map fun n => (Char.ofNat n, rest)
  | [] => none

def isQuote (cs : List Char) (q : Char) : Bool := cs.take 3 = [q, q, q]

/-- Passes a line end with blanks before it and everything blank after it. -/
def skipFoldedLines? (cs : List Char) : Option (List Char) :=
  (newline? (skipBlank cs)).map fun rest =>
    rest.dropWhile fun c => c = ' ' || c = '\t' || c = '\n' || c = '\x0d'

/-- Reads a string after its opening. `q` is the quote, three of which end a string of several lines;
only in a double-quoted one are there escapes. -/
def readString? (q : Char) (isLong : Bool) : Nat → List Char → Option (List Char × List Char)
  | 0, _ => none
  | bound + 1, cs =>
    let continueWith (c : Char) (rest : List Char) : Option (List Char × List Char) :=
      (readString? q isLong bound rest).map fun (text, rest) => (c :: text, rest)
    match cs with
    | [] => none
    | c :: rest =>
      if c = q then
        if !isLong then some ([], rest)
        else if isQuote cs q then
          let more := ((cs.drop 3).takeWhile (· = q)).length
          if more ≤ 2 then some (List.replicate more q, cs.drop (3 + more)) else none
        else continueWith c rest
      else if c = '\\' ∧ q = '"' then
        match (if isLong then skipFoldedLines? rest else none) with
        | some rest => readString? q isLong bound rest
        | none => readEscape? rest >>= fun (c, rest) => continueWith c rest
      else if isPlain c then continueWith c rest
      else if isLong then newline? cs >>= continueWith '\n'
      else none

def readQuoted? (q : Char) (cs : List Char) : Option (String × List Char) :=
  (readString? q false (cs.length + 1) (cs.drop 1)).map fun (text, rest) => (String.ofList text, rest)

/-- Reads a string of one line or several; a line end right after the opening does not count. -/
def readText? (q : Char) (cs : List Char) : Option (String × List Char) :=
  if isQuote cs q then
    let start := cs.drop 3
    (readString? q true (cs.length + 1) ((newline? start).getD start)).map fun (text, rest) =>
      (String.ofList text, rest)
  else readQuoted? q cs

def isBare (c : Char) : Bool := c.isAlphanum || c = '_' || c = '-'

def readSimpleKey? (cs : List Char) : Option (String × List Char) :=
  match cs with
  | '"' :: _ => readQuoted? '"' cs
  | '\'' :: _ => readQuoted? '\'' cs
  | _ =>
    let name := cs.takeWhile isBare
    if name.isEmpty then none else some (String.ofList name, cs.drop name.length)

/-- Reads a key and the blanks around it; dots make a path of it. -/
def readKey? : Nat → List Char → Option (List String × List Char)
  | 0, _ => none
  | bound + 1, cs => do
    let (key, rest) ← readSimpleKey? (skipBlank cs)
    match skipBlank rest with
    | '.' :: rest => do
      let (path, rest) ← readKey? bound rest
      return (key :: path, rest)
    | rest => return ([key], rest)

def isDigitGroup (isDigit : Char → Bool) (cs : List Char) : Bool :=
  (cs.splitOn '_').all fun group => !group.isEmpty && group.all isDigit

def isDecimal (cs : List Char) : Bool :=
  isDigitGroup Char.isDigit cs && (cs.length = 1 || cs.head? ≠ some '0')

def withoutSign : List Char → List Char
  | '+' :: cs | '-' :: cs => cs
  | cs => cs

def number (radix : Nat) (cs : List Char) : Nat :=
  cs.foldl (fun n c => if c = '_' then n else radix * n + (Json.hexValue? c).getD 0) 0

def isInteger (cs : List Char) : Bool :=
  let isRadix (radix : Nat) (digits : List Char) : Bool :=
    isDigitGroup (fun c => (Json.hexValue? c).any fun d => d < radix) digits &&
      number radix digits < 1 <<< 63
  match cs with
  | '0' :: 'x' :: digits => isRadix 16 digits
  | '0' :: 'o' :: digits => isRadix 8 digits
  | '0' :: 'b' :: digits => isRadix 2 digits
  | _ =>
    let digits := withoutSign cs
    isDecimal digits &&
      number 10 digits < 1 <<< 63 + (if cs.head? = some '-' then 1 else 0)

/-- Numbers with decimals or an exponent. One that is too large is none, but a negative one may be. -/
def isFloat (cs : List Char) : Bool :=
  let digits := withoutSign cs
  if digits = "inf".toList ∨ digits = "nan".toList then true
  else
    let isExponent c := c = 'e' || c = 'E'
    let mantissa := digits.takeWhile fun c => !isExponent c
    let exponent := digits.drop mantissa.length
    let whole := mantissa.takeWhile (· ≠ '.')
    let fraction := mantissa.drop whole.length
    isDecimal whole && !(exponent.isEmpty && fraction.isEmpty) &&
      (fraction.isEmpty || isDigitGroup Char.isDigit (fraction.drop 1)) &&
      (exponent.isEmpty || isDigitGroup Char.isDigit (withoutSign (exponent.drop 1))) &&
      (cs.head? = some '-' || isFinite (digits.filter (· ≠ '_')))

def isTwoDigits (low high : Nat) (cs : List Char) : Bool :=
  cs.length = 2 && cs.all Char.isDigit && low ≤ number 10 cs && number 10 cs ≤ high

def isDate (cs : List Char) : Bool :=
  match cs.splitOn '-' with
  | [year, month, day] =>
    let y := number 10 year
    let isLeap := y % 4 = 0 && (y % 100 ≠ 0 || y % 400 = 0)
    let days :=
      match number 10 month with
      | 2 => if isLeap then 29 else 28
      | 4 | 6 | 9 | 11 => 30
      | _ => 31
    year.length = 4 && year.all Char.isDigit && isTwoDigits 1 12 month && isTwoDigits 1 days day
  | _ => false

def isTime (cs : List Char) : Bool :=
  let clock := cs.takeWhile (· ≠ '.')
  let fraction := cs.drop clock.length
  (match clock.splitOn ':' with
    | [hour, minute, second] => isTwoDigits 0 23 hour && isTwoDigits 0 59 minute && isTwoDigits 0 60 second
    | _ => false) &&
  (fraction.isEmpty || (1 < fraction.length && (fraction.drop 1).all Char.isDigit))

def isOffset (cs : List Char) : Bool :=
  match cs with
  | [] | ['Z'] | ['z'] => true
  | sign :: rest =>
    (sign = '+' || sign = '-') &&
      match rest.splitOn ':' with
      | [hour, minute] => isTwoDigits 0 23 hour && isTwoDigits 0 59 minute
      | _ => false

/-- A date, a time of day, or both with the offset of the zone. -/
def isMoment (cs : List Char) : Bool :=
  let date := cs.take 10
  let rest := cs.drop 10
  isTime cs || (isDate date &&
    match rest with
    | [] => true
    | mark :: rest =>
      let clock := rest.takeWhile fun c => c.isDigit || c = ':' || c = '.'
      (mark = 'T' || mark = 't' || mark = ' ') && isTime clock && isOffset (rest.drop clock.length))

def isScalarChar (c : Char) : Bool := c.isAlphanum || c = '_' || c = '+' || c = '-' || c = '.' || c = ':'

def readScalar? (cs : List Char) : Option (Value × List Char) :=
  let word := cs.takeWhile isScalarChar
  let word :=
    match cs.drop word.length with
    | ' ' :: c :: rest =>
      if isDate word ∧ c.isDigit then word ++ ' ' :: (c :: rest).takeWhile isScalarChar else word
    | _ => word
  let rest := cs.drop word.length
  if word = "true".toList then some (.bool true, rest)
  else if word = "false".toList then some (.bool false, rest)
  else if isInteger word || isFloat word || isMoment word then some (.scalar true, rest)
  else none

mutual

/-- Reads a value. `depth` is how many lists and tables may still be opened, `bound` is above the
number of characters and values left to read. -/
def readValue? (depth : Nat) : Nat → List Char → Option (Value × List Char)
  | 0, _ => none
  | bound + 1, cs =>
    match cs with
    | '"' :: _ => (readText? '"' cs).map fun (t, rest) => (.text (some t), rest)
    | '\'' :: _ => (readText? '\'' cs).map fun (t, rest) => (.text (some t), rest)
    | '[' :: rest =>
      if depth = 0 then none
      else (readItems? (depth - 1) bound rest).map fun (items, rest) => (.list items, rest)
    | '\x7b' :: rest =>
      if depth = 0 then none
      else do
        let (statements, rest) ←
          match skipBlank rest with
          | '\x7d' :: rest => some ([], rest)
          | rest => readMembers? (depth - 1) bound rest
        return (← assemble? statements, rest)
    | _ => readScalar? cs

def readItems? (depth : Nat) : Nat → List Char → Option (List Value × List Char)
  | 0, _ => none
  | bound + 1, cs =>
    match skipLines cs.length cs with
    | ']' :: rest => some ([], rest)
    | cs => do
      let (item, rest) ← readValue? depth bound cs
      match skipLines rest.length rest with
      | ',' :: rest => do
        let (items, rest) ← readItems? depth bound rest
        return (item :: items, rest)
      | ']' :: rest => return ([item], rest)
      | _ => none

def readMembers? (depth : Nat) : Nat → List Char → Option (List Statement × List Char)
  | 0, _ => none
  | bound + 1, cs => do
    let (path, rest) ← readKey? cs.length cs
    match rest with
    | '=' :: rest => do
      let (value, rest) ← readValue? depth bound (skipBlank rest)
      match skipBlank rest with
      | ',' :: rest => do
        let (statements, rest) ← readMembers? depth bound rest
        return (.assignment path value :: statements, rest)
      | '\x7d' :: rest => return ([.assignment path value], rest)
      | _ => none
    | _ => none

end

def maxDepth : Nat := 79

def readStatement? (cs : List Char) : Option (Statement × List Char) :=
  match cs with
  | '[' :: '[' :: rest => do
    let (path, rest) ← readKey? rest.length rest
    match rest with
    | ']' :: ']' :: rest => return (.arrayHeader path, rest)
    | _ => none
  | '[' :: rest => do
    let (path, rest) ← readKey? rest.length rest
    match rest with
    | ']' :: rest => return (.tableHeader path, rest)
    | _ => none
  | _ => do
    let (path, rest) ← readKey? cs.length cs
    match rest with
    | '=' :: rest => do
      let (value, rest) ← readValue? maxDepth (2 * rest.length + 2) (skipBlank rest)
      return (.assignment path value, rest)
    | _ => none

def readStatements? : Nat → List Char → Option (List Statement)
  | 0, _ => none
  | bound + 1, cs =>
    match skipLines cs.length cs with
    | [] => some []
    | cs =>
      if (skipComment cs).isEmpty then some []
      else do
        let (statement, rest) ← readStatement? cs
        let rest ← endOfLine? rest
        return statement :: (← readStatements? bound rest)

def ofText? (s : String) : Option Value :=
  let cs := s.toList
  let cs := if cs.head? = some '\ufeff' then cs.drop 1 else cs
  readStatements? (cs.length + 1) cs >>= assemble?

end PkiEnroll.Document.Toml
