import FlagEngine.Pattern.Node

/-! Searching a text for a pattern. A node is tried at a position and hands over, in order of
preference, to what comes after it; the first way that succeeds to the end is the match. A
repetition stops when a round has consumed nothing. -/
namespace FlagEngine
namespace PatternNode

/-- A way through the text so far: where it stands, and where groups opened and closed. -/
structure Thread where
  pos : Nat
  marks : List (Nat × Nat)

namespace Thread

def mark (s : Thread) (i : Nat) : Thread := { s with marks := (i, s.pos) :: s.marks }

def span? (s : Thread) (group : Nat) : Option (Nat × Nat) := do
  let first ← s.marks.lookup (2 * group)
  let last ← s.marks.lookup (2 * group + 1)
  if first ≤ last then some (first, last) else none

end Thread

abbrev Next := Thread → Option Thread

def wordAt (text : Array Char) (ascii : Bool) (i : Nat) : Bool :=
  (text[i]?.map (CharKind.word.has ascii)).getD false

def atBoundary (text : Array Char) (ascii : Bool) (pos : Nat) : Bool :=
  (decide (0 < pos) && wordAt text ascii (pos - 1)) != wordAt text ascii pos

def holdsAnchor (text : Array Char) (pos : Nat) : Anchor → Bool
  | .start => pos == 0
  | .lineStart => pos == 0 || text[pos - 1]? == some '\n'
  | .finish => pos == text.size
  | .lastLineEnd => pos == text.size || (pos + 1 == text.size && text[pos]? == some '\n')
  | .lineEnd => pos == text.size || text[pos]? == some '\n'
  | .boundary ascii => text.size != 0 && atBoundary text ascii pos
  | .noBoundary ascii => text.size != 0 && !atBoundary text ascii pos

def sameFrom (text : Array Char) (rule : CaseRule) : Nat → Nat → Nat → Bool
  | 0, _, _ => true
  | n + 1, i, j =>
    match text[i]?, text[j]? with
    | some a, some b =>
      rule.lower a.toNat == rule.lower b.toNat && sameFrom text rule n (i + 1) (j + 1)
    | _, _ => false

def orElse (a : Option Thread) (b : Unit → Option Thread) : Option Thread :=
  match a with
  | some s => some s
  | none => b ()

/-- The rounds that must be. -/
def required (step : Next → Next) : Nat → Next → Next
  | 0, k => k
  | n + 1, k => step (required step n k)

/-- The rounds that may be, as many as possible first, not more than the bound. -/
def greedily (step : Next → Next) (k : Next) : Nat → Option Nat → Next
  | 0, _, s => k s
  | n + 1, last, s =>
    if last = some s.pos then k s
    else orElse (step (greedily step k n (some s.pos)) s) fun _ => k s

/-- The rounds that may be, as few as possible first. -/
def reluctantly (step : Next → Next) (k : Next) : Nat → Option Nat → Next
  | 0, _, s => k s
  | n + 1, last, s =>
    orElse (k s) fun _ =>
      if last = some s.pos then none else step (reluctantly step k n (some s.pos)) s

/-- Rounds that are never taken back. -/
def possessively (step : Next → Next) : Nat → Option Nat → Thread → Thread
  | 0, _, s => s
  | n + 1, last, s =>
    if last = some s.pos then s
    else
      match step some s with
      | some s' => possessively step n (some s.pos) s'
      | none => s

/-- Each further round but the last consumes something, so the text bounds their number. -/
def roomFor (text : Array Char) (low : Nat) : Option Nat → Nat
  | some high => min (high - low) (text.size + 2)
  | none => text.size + 2

def run (text : Array Char) : PatternNode → Next → Next
  | .empty, k, s => k s
  | .any lineBreaks, k, s =>
    match text[s.pos]? with
    | some c => if lineBreaks || c != '\n' then k { s with pos := s.pos + 1 } else none
    | none => none
  | .one neg members rule, k, s =>
    match text[s.pos]? with
    | some c =>
      if members.any (·.has rule c) != neg then k { s with pos := s.pos + 1 } else none
    | none => none
  | .anchor a, k, s => if holdsAnchor text s.pos a then k s else none
  | .seq a b, k, s => run text a (run text b k) s
  | .alt a b, k, s => orElse (run text a k s) fun _ => run text b k s
  | .group a, k, s => run text a k s
  | .capture g a, k, s => run text a (fun s => k (s.mark (2 * g + 1))) (s.mark (2 * g))
  | .atomic a, k, s => (run text a some s).bind k
  | .ahead neg a, k, s =>
    match run text a some s with
    | some s' => if neg then none else k { s' with pos := s.pos }
    | none => if neg then k s else none
  | .behind width neg a, k, s =>
    if s.pos < width.1 then if neg then k s else none
    else
      match run text a some { s with pos := s.pos - width.1 } with
      | some s' => if neg then none else k { s' with pos := s.pos }
      | none => if neg then k s else none
  | .backref g rule, k, s =>
    match s.span? g with
    | some (i, j) =>
      if sameFrom text rule (j - i) i s.pos then k { s with pos := s.pos + (j - i) } else none
    | none => none
  | .ifGroup g a b, k, s => if (s.span? g).isSome then run text a k s else run text b k s
  | .rep .greedy low high a, k, s =>
    required (run text a) low (greedily (run text a) k (roomFor text low high) none) s
  | .rep .reluctant low high a, k, s =>
    required (run text a) low (reluctantly (run text a) k (roomFor text low high) none) s
  | .rep .possessive low high a, k, s =>
    (required (fun k s => (run text a some s).bind k) low some s).bind fun s =>
      k (possessively (run text a) (roomFor text low high) none s)

def searchFrom (text : Array Char) (node : PatternNode) : Nat → Nat → Bool
  | 0, _ => false
  | n + 1, pos => (run text node some ⟨pos,[]⟩).isSome || searchFrom text node n (pos + 1)

/-- Whether the pattern matches anywhere in the text. -/
def occursIn (node : PatternNode) (text : Array Char) : Bool :=
  searchFrom text node (text.size + 1) 0

end PatternNode
end FlagEngine
