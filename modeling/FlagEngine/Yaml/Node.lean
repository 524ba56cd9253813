import FlagEngine.Yaml.Layout
import FlagEngine.Yaml.Tag

/-! Nodes: scalars, lists and mappings under their tags, with every alias replaced by what it names,
but for those that name a collection around them. Keys, values and items may be missing; a missing
node is an empty plain scalar. -/
namespace FlagEngine.Yaml

inductive Node
  | scalar (tag : Tag) (text : String)
  | list (tag : Tag) (items : List Node)
  | map (tag : Tag) (entries : List (Node × Node))
  /-- An alias of a collection that it is part of. -/
  | within

/-- The tokens still to be read, the handles of tags, and the nodes that have a name. -/
structure Reading where
  tokens : List Token
  handles : List (String × String)
  anchors : List (String × Node)

/-- What stands before a node: a name and a tag, in either order. -/
structure Properties where
  anchor : Option String
  tag : Option String

namespace Node

def missing : Node := .scalar (.ofPlain "") ""

end Node

namespace Token

def isItem (t : Token) : Bool := t == .item
def isKey (t : Token) : Bool := t == .key
def isValue (t : Token) : Bool := t == .value
def isComma (t : Token) : Bool := t == .comma
def endsBlock (t : Token) : Bool := t == .blockEnd
def endsList (t : Token) : Bool := t == .closeList
def endsMap (t : Token) : Bool := t == .closeMap

/-- Whether a document may end before this token. -/
def endsDocument : Token → Bool
  | .directive _ => true
  | .documentStart => true
  | .documentEnd => true
  | .finished => true
  | _ => false

end Token

namespace Reading

def peek (r : Reading) : Token := r.tokens.headD (.broken .malformed)

def next (r : Reading) : Reading := { r with tokens := r.tokens.tail }

/-- The failure in place of something else that should stand here. -/
def refusal (r : Reading) : Failure :=
  match r.peek with
  | .broken f => f
  | _ => .malformed

def name (r : Reading) (anchor : Option String) (n : Node) : Reading :=
  match anchor with
  | some a => { r with anchors := (a, n) :: r.anchors }
  | none => r

def named? (r : Reading) (name : String) : Option Node := r.anchors.lookup name

/-- A tag in full. -/
def fullTag (r : Reading) (handle : Option String) (suffix : String) : Except Failure String :=
  match handle with
  | none => .ok suffix
  | some h =>
    match r.handles.lookup h with
    | some stem => .ok (stem ++ suffix)
    | none => .error .malformed

def anchor? (r : Reading) : Option String × Reading :=
  match r.peek with
  | .anchor a => (some a, r.next)
  | _ => (none, r)

def tag? (r : Reading) : Option (Option String × String) × Reading :=
  match r.peek with
  | .tag h s => (some (h, s), r.next)
  | _ => (none, r)

def properties (r : Reading) : Except Failure (Properties × Reading) := do
  let (before?, r) := r.tag?
  let (anchor?, r) := r.anchor?
  let (after?, r) := if before?.isSome || anchor?.isNone then (none, r) else r.tag?
  match r.peek with
  | .broken f => throw f
  | _ =>
    match before?.or after? with
    | some (h, s) => return (⟨anchor?,some (← r.fullTag h s)⟩, r)
    | none => return (⟨anchor?,none⟩, r)

/-- A name may be given once. -/
def claim (r : Reading) (p : Properties) : Except Failure Unit :=
  match p.anchor with
  | some a => if (r.named? a).isSome then .error .malformed else .ok ()
  | none => .ok ()

end Reading

namespace Properties

/-- The tag of a collection: its own, or the usual one. -/
def collectionTag (p : Properties) (usual : Tag) : Tag :=
  match p.tag with
  | some t => if t = "!" then usual else .ofText t
  | none => usual

/-- The tag of a scalar. Quoted text is text unless the tag says that the text decides. -/
def scalarTag (p : Properties) (text : String) (plain : Bool) : Tag :=
  match p.tag with
  | some t => if t = "!" then .ofPlain text else .ofText t
  | none => if plain then .ofPlain text else .text

end Properties

namespace Node

/-- A node that something else may stand in for, when nothing is there. -/
def orMissing (ends : Token → Bool) (r : Reading)
    (read : Reading → Except Failure (Node × Reading)) : Except Failure (Node × Reading) :=
  match r.peek with
  | .broken f => .error f
  | t => if ends t then .ok (missing, r) else read r

/-- What follows the mark for a value; without the mark there is no value. -/
def valueOrMissing (ends : Token → Bool) (r : Reading)
    (read : Reading → Except Failure (Node × Reading)) : Except Failure (Node × Reading) :=
  match r.peek with
  | .value => orMissing ends r.next read
  | .broken f => .error f
  | _ => .ok (missing, r)

def endsBlockKey (t : Token) : Bool := t.isKey || t.isValue || t.endsBlock
def endsBlockItem (t : Token) : Bool := t.isItem || t.endsBlock
def endsHangingItem (t : Token) : Bool := t.isItem || endsBlockKey t
def endsPairValue (t : Token) : Bool := t.isComma || t.endsList
def endsPairKey (t : Token) : Bool := t.isValue || endsPairValue t
def endsMapValue (t : Token) : Bool := t.isComma || t.endsMap
def endsMapKey (t : Token) : Bool := t.isValue || endsMapValue t

/-- Gives a collection its name before it is read, for aliases inside, and once more when it is
whole. -/
def collection {α : Type} (p : Properties) (r : Reading) (make : List α → Node)
    (read : Reading → Except Failure (List α × Reading)) : Except Failure (Node × Reading) := do
  r.claim p
  let (xs, r) ← read (r.name p.anchor within)
  return (make xs, r.name p.anchor (make xs))

/-- The comma before all entries in brackets but the first. -/
def separator (first : Bool) (r : Reading) : Except Failure Reading :=
  if first then .ok r
  else if r.peek.isComma then .ok r.next
  else .error r.refusal

mutual
/-- A node. In a block it may be a block collection, and after a key a list without indentation. -/
def read : Nat → Bool → Bool → Reading → Except Failure (Node × Reading)
  | 0, _, _, _ => .error .malformed
  | fuel + 1, inBlock, hanging, r =>
    match r.peek with
    | .alias a =>
      match r.named? a with
      | some n => .ok (n, r.next)
      | none => .error .malformed
    | _ => do
      let (p, r) ← r.properties
      let list := collection p r (.list (p.collectionTag .list))
      let map := collection p r (.map (p.collectionTag .map))
      match r.peek with
      | .scalar s plain => do
        r.claim p
        let n := Node.scalar (p.scalarTag s plain) s
        return (n, r.next.name p.anchor n)
      | .openList => list fun r => listItems fuel true r.next
      | .openMap => map fun r => mapEntries fuel true r.next
      | t =>
        if hanging && t.isItem then list (hangingItems fuel)
        else if inBlock && t == .blockList then list fun r => blockItems fuel r.next
        else if inBlock && t == .blockMap then map fun r => blockEntries fuel r.next
        else if p.anchor.isSome || p.tag.isSome then do
          r.claim p
          let n := Node.scalar (p.scalarTag "" true) ""
          return (n, r.name p.anchor n)
        else throw r.refusal
def blockItems : Nat → Reading → Except Failure (List Node × Reading)
  | 0, _ => .error .malformed
  | fuel + 1, r =>
    match r.peek with
    | .item => do
      let (n, r) ← orMissing endsBlockItem r.next (read fuel true false)
      let (ns, r) ← blockItems fuel r
      return (n :: ns, r)
    | .blockEnd => .ok ([], r.next)
    | _ => .error r.refusal
/-- Items at the indentation of the key before them; anything else ends them. -/
def hangingItems : Nat → Reading → Except Failure (List Node × Reading)
  | 0, _ => .error .malformed
  | fuel + 1, r =>
    match r.peek with
    | .item => do
      let (n, r) ← orMissing endsHangingItem r.next (read fuel true false)
      let (ns, r) ← hangingItems fuel r
      return (n :: ns, r)
    | .broken f => .error f
    | _ => .ok ([], r)
def blockEntries : Nat → Reading → Except Failure (List (Node × Node) × Reading)
  | 0, _ => .error .malformed
  | fuel + 1, r =>
    match r.peek with
    | .key => do
      let (k, r) ← orMissing endsBlockKey r.next (read fuel true true)
      let (v, r) ← valueOrMissing endsBlockKey r (read fuel true true)
      let (es, r) ← blockEntries fuel r
      return ((k, v) :: es, r)
    | .blockEnd => .ok ([], r.next)
    | _ => .error r.refusal
/-- Items in brackets. A key among them is a mapping of one entry. -/
def listItems : Nat → Bool → Reading → Except Failure (List Node × Reading)
  | 0, _, _ => .error .malformed
  | fuel + 1, first, r =>
    if r.peek.endsList then .ok ([], r.next)
    else do
      let r ← separator first r
      match r.peek with
      | .key =>
        let (k, r) ← orMissing endsPairKey r.next (read fuel false false)
        let (v, r) ← valueOrMissing endsPairValue r (read fuel false false)
        let (ns, r) ← listItems fuel false r
        return (.map .map [(k, v)] :: ns, r)
      | .closeList => return ([], r.next)
      | _ =>
        let (n, r) ← read fuel false false r
        let (ns, r) ← listItems fuel false r
        return (n :: ns, r)
/-- Entries in braces. A node without the mark for a key is a key without a value. -/
def mapEntries : Nat → Bool → Reading → Except Failure (List (Node × Node) × Reading)
  | 0, _, _ => .error .malformed
  | fuel + 1, first, r =>
    if r.peek.endsMap then .ok ([], r.next)
    else do
      let r ← separator first r
      match r.peek with
      | .key =>
        let (k, r) ← orMissing endsMapKey r.next (read fuel false false)
        let (v, r) ← valueOrMissing endsMapValue r (read fuel false false)
        let (es, r) ← mapEntries fuel false r
        return ((k, v) :: es, r)
      | .closeMap => return ([], r.next)
      | _ =>
        let (k, r) ← read fuel false false r
        let (es, r) ← mapEntries fuel false r
        return ((k, missing) :: es, r)
end

def usualHandles : List (String × String) := [("!","!"),("!!",Tag.stem)]

/-- The directives before a document. A version may be given once, and a handle once. -/
def directives : Bool → List (String × String) → List Token →
    Except Failure (List (String × String) × List Token)
  | versioned, handles, .directive d :: ts =>
    match d with
    | .version major =>
      if versioned || major ≠ 1 then .error .malformed else directives true handles ts
    | .handle name stem =>
      if (handles.lookup name).isSome then .error .malformed
      else directives versioned ((name, stem) :: handles) ts
    | .other => directives versioned handles ts
  | _, handles, ts => .ok (handles, ts)

/-- There is one document in a text, and nothing after it. -/
def finish (tokens : List Token) : Except Failure Unit :=
  match tokens.dropWhile (· == .documentEnd) with
  | .finished :: _ => .ok ()
  | ts => do
    let (_, ts) ← directives false [] ts
    throw (Reading.refusal ⟨ts,[],[]⟩)

def document (handles : List (String × String)) (mayBeMissing : Bool) (ts : List Token) :
    Except Failure Node := do
  let r : Reading := ⟨ts,handles,[]⟩
  let read := read (3 * ts.length + 3) true false
  let (n, r) ← if mayBeMissing then orMissing Token.endsDocument r read else read r
  finish r.tokens
  return n

/-- The document that tokens make, if there is one. -/
def ofTokens (ts : List Token) : Except Failure (Option Node) :=
  let explicit := do
    let (handles, ts) ← directives false [] ts
    match ts with
    | .documentStart :: ts => (document (handles ++ usualHandles) true ts).map some
    | ts => throw (Reading.refusal ⟨ts,[],[]⟩)
  match ts with
  | .finished :: _ => .ok none
  | .broken f :: _ => .error f
  | .directive _ :: _ => explicit
  | .documentStart :: _ => explicit
  | _ => (document usualHandles false ts).map some

end Node
end FlagEngine.Yaml
