import Mathlib.Data.Char
import Mathlib.Data.Finset.Sort
import Mathlib.Data.List.Lex
import Inferx.Selector.Lexer
import Inferx.Text

/-!
# The parser of selectors

`Parse` turns the tokens of a selector into requirements, each a key, an operator and a
set of values, and sorts them by key. `Lookahead` and `Consume` index the tokens
without a check, so running off their end is a panic; `ParseError` tells it from the
errors that are returned. The order in which a requirement holds its values is that of
a hash set and is left open here.
-/

namespace Inferx.Selector

/-! ## Validation -/

/-- `str::len`: bytes. -/
def byteLen (s : List Char) : ℕ := s.foldl (fun n c => n + c.utf8Size) 0

def isAsciiDigit (c : Char) : Bool := '0' ≤ c && c ≤ '9'

def isAsciiLower (c : Char) : Bool := 'a' ≤ c && c ≤ 'z'

def isAlnum (c : Char) : Bool := isAsciiDigit c || isAsciiLower c || ('A' ≤ c && c ≤ 'Z')

/-- A text of characters with `p` whose first and last one have `q`. -/
def isNameOf (p q : Char → Bool) (s : List Char) : Bool :=
  s.all p && s.head?.any q && s.getLast?.any q

/-- `QUALIFIED_NAME_REGEXP`. -/
def isQualified (s : List Char) : Bool :=
  isNameOf (fun c => isAlnum c || c == '-' || c == '_' || c == '.') isAlnum s

/-- `DNS1123_SUBDOMAIN_REGEXP`. -/
def isSubdomain (s : List Char) : Bool :=
  (s.splitOn '.').all (isNameOf (fun c => isAsciiLower c || isAsciiDigit c || c == '-')
    fun c => isAsciiLower c || isAsciiDigit c)

/-- Why parsing stops. -/
inductive ParseError where
  /-- the tokens are indexed past their end, or `New` is given no operator -/
  | panic
  | common (msg : String)
  deriving DecidableEq, Repr

def isDNS1123Subdomain (value : List Char) : Except ParseError Unit :=
  if 253 < byteLen value then .error (.common "DNS1123Subdomain len must be less than 254")
  else if isSubdomain value then .ok ()
  else .error (.common "a lowercase RFC 1123 subdomain must consist of lower case alphanumeric characters, '-' or '.', and must start and end with an alphanumeric character")

/-- The checks of `IsQualifiedName` on the name. -/
def checkName (name : List Char) : Except ParseError Unit :=
  if name = [] then .error (.common "Name must be non empty")
  else if 63 < byteLen name then .error (.common "Name len must be less than 64")
  else if isQualified name then .ok ()
  else .error (.common "Name is not legal")

def isQualifiedName (value : List Char) : Except ParseError Unit :=
  match value.splitOn '/' with
  | [name] => checkName name
  | [domain, name] =>
    if domain = [] then .error (.common "Prefix must be non empty")
    else do
      isDNS1123Subdomain domain
      checkName name
  | _ => .error (.common s!"'{String.ofList value}' is not a qualified name")

def validateLabelKey (k : List Char) : Except ParseError Unit := isQualifiedName k

/-- `str::parse::<u64>`. -/
def parseU64 (cs : List Char) : Option ℕ := do
  let n ← match cs with
    | '+' :: ds => parseDigits ds
    | ds => parseDigits ds
  if n < 2 ^ 64 then some n else none

/-! ## Requirements -/

inductive SelectionOp where
  | none | doesNotExist | equals | doubleEquals | isIn | notEquals | notIn | exist | greaterThan
  | lessThan
  deriving DecidableEq, Repr

structure Requirement where
  key : List Char
  op : SelectionOp
  strVals : Finset (List Char)
  deriving DecidableEq

/-- The values in order, as `Values` gives them. -/
def Requirement.values (r : Requirement) : List (List Char) := r.strVals.sort

/-- `Requirement::New`. -/
def Requirement.new (key : List Char) (op : SelectionOp) (vals : Finset (List Char)) :
    Except ParseError Requirement := do
  validateLabelKey key
  match op with
  | .none => .error .panic
  | .isIn | .notIn =>
    if vals.card = 0 then
      .error (.common "for 'in', 'notin' operators, values set can't be empty")
    else .ok ⟨key, op, vals⟩
  | .equals | .doubleEquals | .notEquals =>
    if vals.card = 1 then .ok ⟨key, op, vals⟩
    else .error (.common "exact-match compatibility requires one single value")
  | .exist | .doesNotExist =>
    if vals.card = 0 then .ok ⟨key, op, vals⟩
    else .error (.common "values set must be empty for exists and does not exist")
  | .greaterThan | .lessThan =>
    if vals.card = 1 then
      if ∀ v ∈ vals, (parseU64 v).isSome then .ok ⟨key, op, vals⟩
      else .error (.common "for 'Gt', 'Lt' operators, the value must be an integer")
    else .error (.common "for 'Gt', 'Lt' operators, exactly one value is required")

/-! ## The parser -/

/-- The words `in` and `notin` are operators in one context, values in the other. -/
inductive ParserContext where
  | keyAndOperator | values
  deriving DecidableEq, Repr

def ScannedItem.inContext (i : ScannedItem) : ParserContext → Token
  | .keyAndOperator => i.tok
  | .values => if i.tok = .isIn ∨ i.tok = .notIn then .identifier else i.tok

def lookahead (context : ParserContext) : List ScannedItem → Except ParseError (Token × List Char)
  | [] => .error .panic
  | i :: _ => .ok (i.inContext context, i.literal)

def consume (context : ParserContext) :
    List ScannedItem → Except ParseError ((Token × List Char) × List ScannedItem)
  | [] => .error .panic
  | i :: items => .ok ((i.inContext context, i.literal), items)

/-- `found '…', expected: …`. -/
def found (lit : List Char) (expected : String) : ParseError :=
  .common s!"found '{String.ofList lit}'{expected}"

def parseKeyAndInferOperator (items : List ScannedItem) :
    Except ParseError ((List Char × SelectionOp) × List ScannedItem) := do
  let ((tok, literal), items) ← consume .values items
  let (operator, tok, literal, items) ←
    if tok = .doesNotExist then do
      let ((tt, tl), items) ← consume .values items
      pure (SelectionOp.doesNotExist, tt, tl, items)
    else pure (SelectionOp.none, tok, literal, items)
  if tok = .identifier then
    validateLabelKey literal
    let (t, _) ← lookahead .values items
    if (t = .endOfString ∨ t = .comma) ∧ operator ≠ .doesNotExist then
      return ((literal, .exist), items)
    else return ((literal, operator), items)
  else .error (found literal ", expected: identifier")

def parseOperator (items : List ScannedItem) :
    Except ParseError (SelectionOp × List ScannedItem) := do
  let ((tok, lit), items) ← consume .keyAndOperator items
  match tok with
  | .isIn => return (.isIn, items)
  | .equals => return (.equals, items)
  | .doubleEquals => return (.doubleEquals, items)
  | .greaterThan => return (.greaterThan, items)
  | .lessThan => return (.lessThan, items)
  | .notIn => return (.notIn, items)
  | .notEquals => return (.notEquals, items)
  | _ => .error (found lit ", expected: In, NotIn ...")

/-- `ParseIdentifiersList`, with the values so far. -/
def parseIdentifiersList (s : Finset (List Char)) :
    List ScannedItem → Except ParseError (Finset (List Char) × List ScannedItem)
  | [] => .error .panic
  | i :: items =>
    match i.inContext .values with
    | .identifier => do
      let (tok2, lit2) ← lookahead .values items
      match tok2 with
      | .comma => parseIdentifiersList (insert i.literal s) items
      | .closedPar => return (insert i.literal s, items)
      | _ => .error (found lit2 ", expected: ',' or ')'")
    | .comma =>
      let s := if s.card = 0 then insert [] s else s
      match items with
      | [] => .error .panic
      | i₂ :: items₂ =>
        -- the source compares the comma itself with ')', and so never stops here
        if i.inContext .values = .closedPar then return (insert [] s, i₂ :: items₂)
        else if i₂.inContext .values = .comma then parseIdentifiersList (insert [] s) items₂
        else parseIdentifiersList s (i₂ :: items₂)
    | _ => .error (found i.literal ", expected: ',', or identifier")

def parseValues (items : List ScannedItem) :
    Except ParseError (Finset (List Char) × List ScannedItem) := do
  let ((tok, lit), items) ← consume .values items
  if tok = .openPar then
    let (tok, lit) ← lookahead .values items
    match tok with
    | .identifier | .comma => do
      let (s, items) ← parseIdentifiersList ∅ items
      let ((tok, _), items) ← consume .values items
      if tok = .closedPar then return (s, items)
      else .error (found lit ", expected: ')'")
    | .closedPar => do
      let (_, items) ← consume .values items
      return (∅, items)
    | _ => .error (found lit ", expected: ',', ')' or identifier")
  else .error (found lit " expected: '('")

def parseExactValue (items : List ScannedItem) :
    Except ParseError (Finset (List Char) × List ScannedItem) := do
  let (tok, _) ← lookahead .values items
  if tok = .endOfString ∨ tok = .comma then return ({[]}, items)
  else
    let ((tok, lit), items) ← consume .values items
    if tok = .identifier then return ({lit}, items)
    else .error (found lit ", expected: identifier")

def parseRequirement (items : List ScannedItem) :
    Except ParseError (Requirement × List ScannedItem) := do
  let ((key, operator), items) ← parseKeyAndInferOperator items
  if operator = .exist ∨ operator = .doesNotExist then
    return (← Requirement.new key operator ∅, items)
  else
    let (operator, items) ← parseOperator items
    let (values, items) ←
      if operator = .isIn ∨ operator = .notIn then parseValues items
      else parseExactValue items
    return (← Requirement.new key operator values, items)

/-- The loop of `Parse`, for at most `fuel` requirements. -/
def parseLoop : ℕ → List ScannedItem → Except ParseError (List Requirement)
  | 0, _ => .error .panic
  | fuel + 1, items => do
    let (tok, lit) ← lookahead .values items
    match tok with
    | .identifier | .doesNotExist => do
      let (r, items) ← parseRequirement items
      let ((t, l), items) ← consume .values items
      match t with
      | .endOfString => return [r]
      | .comma => do
        let (t2, l2) ← lookahead .values items
        if t2 ≠ .identifier ∧ t2 ≠ .doesNotExist then
          .error (found l2 ", expected: identifier after ','")
        else return r :: (← parseLoop fuel items)
      | _ => .error (found l ", expected: ',' or 'end of string'")
    | .endOfString => return []
    | _ => .error (found lit ", expected: !, identifier, or 'end of string'")

/-- `Sort`: stable, by key. -/
def sortByKey (reqs : List Requirement) : List Requirement :=
  reqs.mergeSort fun a b => decide (a.key ≤ b.key)

/-- `Parse`. -/
def parse (selector : List Char) : Except ParseError (List Requirement) := do
  let items := scan selector
  return sortByKey (← parseLoop (items.length + 1) items)

end Inferx.Selector
