import FlagEngine.Condition.Match
import FlagEngine.Subject
import FlagEngine.Url.Query
import FlagEngine.World

/-! Assigning a subject to a variation of an experiment. Whether a subject may enter, and whether
the outcome is forced, is decided without the store; only subjects that may enter are looked up
there, and only those it does not know are placed by their point. -/
namespace FlagEngine

structure Options where
  enabled : Bool
  /-- Nobody is assigned except by force. -/
  qaMode : Bool
  forced : List (String × Int)
  url : String

def Options.default : Options := ⟨true,false,[],""⟩

/-- How an included subject came to its variation. -/
inductive Origin (ν : Type)
  | forced (subject : Option String)
  | sticky (subject : String)
  | placed (subject : String) (point : ν)

structure Inclusion (ν : Type) where
  index : Nat
  value : Value
  origin : Origin ν
  key : String
  name : Option String
  passthrough : Bool

inductive Assignment (ν : Type)
  | excluded (subject : Option String)
  | included (i : Inclusion ν)

namespace Origin

variable {ν : Type}

def subject? : Origin ν → Option String
  | .forced s => s
  | .sticky s => some s
  | .placed s _ => some s

def point? : Origin ν → Option ν
  | .placed _ n => some n
  | _ => none

def isForced : Origin ν → Bool
  | .forced _ => true
  | _ => false

def isSticky : Origin ν → Bool
  | .sticky _ => true
  | _ => false

def isPlaced : Origin ν → Bool
  | .placed _ _ => true
  | _ => false

/-- The subject of an exposure: forced variations expose nobody. -/
def exposed? : Origin ν → Option String
  | .forced _ => none
  | .sticky s => some s
  | .placed s _ => some s

end Origin

/-- What is decided before the store is asked. -/
inductive Entry
  | excluded (reason : Exclusion)
  /-- Forced from outside, by the URL or the options. -/
  | forced (index : Int)
  /-- Forced by the experiment itself. -/
  | pinned (index : Int)
  | eligible (subject : String)
  deriving DecidableEq, Repr

/-- Where the entry ends in a fault: asking for the subject, reading the URL, or testing the filters
or the condition. -/
inductive Stop
  | subject
  | url (f : Fault)
  | filters
  | condition
  deriving DecidableEq, Repr

def Stop.fault : Stop → Fault
  | .url f => f
  | _ => .overlongInteger

namespace Experiment

variable {ν : Type} [Fraction ν] {σ : Type}

def count (e : Experiment ν) : Nat := e.variations.length

def subject? (e : Experiment ν) (a : Value) : Option String := a.subject? e.hashAttribute

def forcedBy (e : Experiment ν) (o : Options) : Except Fault (Option Int) :=
  match Query.override e.key o.url e.count with
  | .error f => .error f
  | .ok (some i) => .ok (some i)
  | .ok none => .ok (o.forced.lookup e.key)

/-- Filters take the place of the namespace. -/
def keptOut? (e : Experiment ν) (a : Value) (subject : String) : Option Exclusion :=
  if e.filters.isEmpty then
    match e.space with
    | some s => if s.has subject then none else some .outsideNamespace
    | none => none
  else if Filter.keepsOut e.filters a then some .filteredOut
  else none

def holds (c? : Option Condition) (a : Value) : Bool :=
  match c? with
  | some c => c.holds a
  | none => true

def stumbles (c? : Option Condition) (a : Value) : Bool :=
  match c? with
  | some c => c.stumbles a
  | none => false

def tooLong (c? : Option Condition) (a : Value) : List Event :=
  match c? with
  | some c => (c.unsearched a).map .regexInputTooLong
  | none => []

/-- The filters or, if they let the subject pass, the condition come upon an integer that is too
long. -/
def stumble? (e : Experiment ν) (a : Value) (subject : String) : Option Stop :=
  if Filter.stumble e.filters a then some .filters
  else if (e.keptOut? a subject).isNone && stumbles e.condition a then some .condition
  else none

def exclusion? (e : Experiment ν) (o : Options) (a : Value) (subject : String) :
    Option Exclusion :=
  match e.keptOut? a subject with
  | some r => some r
  | none =>
    if !holds e.condition a then some .condition
    else if o.qaMode then some .qaMode
    else none

/-- For a subject that nothing forces: what may keep it out. -/
def admission (e : Experiment ν) (o : Options) (a : Value) (subject : String) :
    Except Stop Entry :=
  match e.stumble? a subject with
  | some stop => .error stop
  | none =>
    match e.exclusion? o a subject with
    | some r => .ok (.excluded r)
    | none => .ok (.eligible subject)

/-- The subject is asked for first. Then, in this order: enough variations, the switch, force from
outside, an active experiment, a subject, force from the experiment, and what may keep the subject
out. -/
def entry (e : Experiment ν) (o : Options) (a : Value) : Except Stop Entry :=
  if a.overlongAt e.hashAttribute then .error .subject
  else if e.count < 2 then .ok (.excluded .tooFewVariations)
  else if !o.enabled then .ok (.excluded .disabled)
  else
    match e.forcedBy o with
    | .error f => .error (.url f)
    | .ok (some i) => .ok (.forced i)
    | .ok none =>
      if !e.active then .ok (.excluded .inactive)
      else
        match e.subject? a with
        | none => .ok (.excluded .missingHashAttribute)
        | some subject =>
          match e.force with
          | some i => .ok (.pinned i)
          | none => e.admission o a subject

def stopNotes (e : Experiment ν) (a : Value) : Stop → List Event
  | .condition => tooLong e.condition a
  | _ => []

def entryNotes (e : Experiment ν) (a : Value) : Entry → List Event
  | .excluded .condition => tooLong e.condition a ++ [.experimentSkipped e.key .condition]
  | .excluded .qaMode => tooLong e.condition a ++ [.experimentSkipped e.key .qaMode]
  | .excluded r => [.experimentSkipped e.key r]
  | .forced i => [.variationForced e.key i]
  | .pinned _ => []
  | .eligible _ => tooLong e.condition a

/-- Takes a subject in with a variation, unless the experiment has no such variation. -/
def takeIn (e : Experiment ν) (index : Int) (origin : Origin ν) : Assignment ν :=
  if index < 0 then .excluded origin.subject?
  else
    match e.variations[index.toNat]? with
    | none => .excluded origin.subject?
    | some v =>
      let info? := e.info[index.toNat]?
      .included
        { index := index.toNat
          value := v
          origin := origin
          key :=
            match info?.bind (·.key) with
            | some k => if k.isEmpty then Number.digits index.toNat else k
            | none => Number.digits index.toNat
          name := info?.bind (·.name)
          passthrough := (info?.map (·.passthrough)).getD false }

/-- The index that the store holds, if it is one of the experiment. -/
def stored (e : Experiment ν) (store : Store σ) (subject : String) (w : World σ) :
    Option Nat × World σ :=
  match store.read w.store e.key subject with
  | (.failed, s) => (none, (w.withStore s).note (.stickyReadFailed e.key))
  | (.found (.int i), s) =>
    if 0 ≤ i ∧ i < e.count then (some i.toNat, w.withStore s)
    else (none, (w.withStore s).note (.stickyOutOfRange e.key i))
  | (.found _, s) => (none, w.withStore s)

def seedOrKey (e : Experiment ν) : String :=
  match e.seed with
  | some s => if s.isEmpty then e.key else s
  | none => e.key

def ranges (e : Experiment ν) : List (Bucket ν) :=
  if e.buckets.isEmpty then Bucket.ranges e.count (e.coverage.getD Fraction.one) e.weights
  else e.buckets

/-- The range that a subject's point falls into, and the point. -/
def draw (e : Experiment ν) (subject : String) : Except Exclusion (Nat × ν) :=
  match Hash.point? e.seedOrKey subject e.hashVersion with
  | none => .error (.invalidHashVersion e.hashVersion)
  | some n =>
    match Bucket.choose n e.ranges with
    | none => .error .notInBucket
    | some i => .ok (i, n)

def write (e : Experiment ν) (store? : Option (Store σ)) (subject : String) (index : Nat)
    (w : World σ) : World σ :=
  match store? with
  | none => w
  | some store =>
    let (done, s) := store.write w.store e.key subject index
    if done then w.withStore s else (w.withStore s).note (.stickyWriteFailed e.key)

/-- Places a subject by its point and has the store keep the index. -/
def place (e : Experiment ν) (store? : Option (Store σ)) (subject : String) (w : World σ) :
    Assignment ν × World σ :=
  match e.draw subject with
  | .error r => (.excluded (some subject), w.note (.experimentSkipped e.key r))
  | .ok (i, n) =>
    (e.takeIn i (.placed subject n),
      (e.write store? subject i w).note (.variationAssigned e.key i))

def enroll (e : Experiment ν) (store? : Option (Store σ)) (subject : String) (w : World σ) :
    Assignment ν × World σ :=
  match store? with
  | none => e.place none subject w
  | some store =>
    match e.stored store subject w with
    | (some i, w) => (e.takeIn i (.sticky subject), w)
    | (none, w) => e.place (some store) subject w

/-- Carries out what was decided at the entry. -/
def settle (e : Experiment ν) (store? : Option (Store σ)) (a : Value) (w : World σ) :
    Entry → Assignment ν × World σ
  | .excluded _ => (.excluded (e.subject? a), w)
  | .forced i => (e.takeIn i (.forced (e.subject? a)), w)
  | .pinned i => (e.takeIn i (.forced (e.subject? a)), w)
  | .eligible subject => e.enroll store? subject w

def assign (e : Experiment ν) (store? : Option (Store σ)) (o : Options) (a : Value)
    (w : World σ) : Except Fault (Assignment ν) × World σ :=
  match e.entry o a with
  | .error stop => (.error stop.fault, w.noteAll (e.stopNotes a stop))
  | .ok entry =>
    let (x, w) := e.settle store? a (w.noteAll (e.entryNotes a entry)) entry
    (.ok x, w)

end Experiment
end FlagEngine
