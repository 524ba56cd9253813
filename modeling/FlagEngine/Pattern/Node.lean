import FlagEngine.Text.DecimalDigit
import FlagEngine.Text.Letter
import FlagEngine.Text.LowerCase

/-! Patterns of text as trees: single characters, sequences, alternatives, repetitions, groups and
what looks around. Every node carries the options that were in force where it was written. -/
namespace FlagEngine

/-- How far letters that differ only in case count as the same. -/
inductive CaseRule
  | exact
  | ascii
  | unicode
  deriving DecidableEq, Repr

namespace CaseRule

def lower : CaseRule → Nat → Nat
  | .exact, c => c
  | .ascii, c => if 65 ≤ c ∧ c ≤ 90 then c + 32 else c
  | .unicode, c => Text.lowerCode c

/-- All codes that a character may be taken for. -/
def variants : CaseRule → Char → List Nat
  | .exact, c => [c.toNat]
  | .ascii, c => if c.isAlpha then [c.toLower.toNat,c.toUpper.toNat] else [c.toNat]
  | .unicode, c => if c.val < 0x80 && !c.isAlpha then [c.toNat] else Text.variants c

end CaseRule

inductive CharKind
  | digit
  | blank
  | word
  deriving DecidableEq, Repr

namespace CharKind

def asciiBlank (c : Char) : Bool :=
  c == ' ' || c == '\t' || c == '\n' || c == '\r' || c == '\x0b' || c == '\x0c'

def has : CharKind → Bool → Char → Bool
  | .digit, ascii, c => if ascii then c.isDigit else Text.isDecimal c
  | .blank, ascii, c => if ascii then asciiBlank c else Text.isBlank c
  | .word, ascii, c => c == '_' || (if ascii then c.isAlphanum else Text.isLetterOrNumber c)

end CharKind

/-- A member of a set of characters. -/
inductive Member
  | code (n : Nat)
  | range (low high : Nat)
  | kind (k : CharKind) (ascii neg : Bool)
  deriving DecidableEq, Repr

def Member.has (r : CaseRule) (c : Char) : Member → Bool
  | .code n => (r.variants c).contains n
  | .range low high => (r.variants c).any fun v => low ≤ v && v ≤ high
  | .kind k ascii neg => k.has ascii c != neg

inductive Anchor
  | start
  | lineStart
  | finish
  | lastLineEnd
  | lineEnd
  | boundary (ascii : Bool)
  | noBoundary (ascii : Bool)
  deriving DecidableEq, Repr

inductive Greed
  | greedy
  | reluctant
  | possessive
  deriving DecidableEq, Repr

inductive PatternNode
  | empty
  | any (lineBreaks : Bool)
  | one (neg : Bool) (members : List Member) (rule : CaseRule)
  | anchor (a : Anchor)
  | seq (a b : PatternNode)
  | alt (a b : PatternNode)
  | group (a : PatternNode)
  | capture (number : Nat) (a : PatternNode)
  | atomic (a : PatternNode)
  | ahead (neg : Bool) (a : PatternNode)
  | behind (width : Nat × Nat) (neg : Bool) (a : PatternNode)
  | backref (group : Nat) (rule : CaseRule)
  | ifGroup (group : Nat) (yes no : PatternNode)
  | rep (greed : Greed) (low : Nat) (high : Option Nat) (a : PatternNode)

namespace PatternNode

def ofList : List PatternNode → PatternNode
  | [] => .empty
  | [a] => a
  | a :: as => .seq a (ofList as)

/-- No text is this long; wider patterns count as unbounded. -/
def maxWidth : Nat := 0x10000000000000000

/-- The least and the greatest length of what a node matches, given those of the groups. -/
def width (groups : Nat → Nat × Nat) : PatternNode → Nat × Nat
  | .empty => (0, 0)
  | .any _ => (1, 1)
  | .one _ _ _ => (1, 1)
  | .anchor _ => (0, 0)
  | .seq a b =>
    let (l, h) := a.width groups
    let (l', h') := b.width groups
    (min (l + l') maxWidth, min (h + h') maxWidth)
  | .alt a b =>
    let (l, h) := a.width groups
    let (l', h') := b.width groups
    (min l l', max h h')
  | .group a => a.width groups
  | .capture _ a => a.width groups
  | .atomic a => a.width groups
  | .ahead _ _ => (0, 0)
  | .behind _ _ _ => (0, 0)
  | .backref g _ => groups g
  | .ifGroup _ a b =>
    let (l, h) := a.width groups
    let (l', h') := b.width groups
    (min l l', max h h')
  | .rep _ low high a =>
    let (l, h) := a.width groups
    (min (l * low) maxWidth,
      match high with
      | some n => min (h * n) maxWidth
      | none => if h = 0 then 0 else maxWidth)

/-- Whatever looks behind must know how far. -/
def settled : PatternNode → Bool
  | .seq a b => a.settled && b.settled
  | .alt a b => a.settled && b.settled
  | .group a => a.settled
  | .capture _ a => a.settled
  | .atomic a => a.settled
  | .ahead _ a => a.settled
  | .behind w _ a => w.1 == w.2 && a.settled
  | .ifGroup _ a b => a.settled && b.settled
  | .rep _ _ _ a => a.settled
  | _ => true

def repeats : PatternNode → Bool
  | .seq a b => a.repeats || b.repeats
  | .alt a b => a.repeats || b.repeats
  | .group a => a.repeats
  | .capture _ a => a.repeats
  | .atomic a => a.repeats
  | .ahead _ a => a.repeats
  | .behind _ _ a => a.repeats
  | .ifGroup _ a b => a.repeats || b.repeats
  | .rep _ _ _ _ => true
  | _ => false

end PatternNode
end FlagEngine
