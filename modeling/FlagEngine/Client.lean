import FlagEngine.Catalog

/-! A client holds a catalog, a store, a tracker and options, and answers for features by key. -/
namespace FlagEngine

structure Client (ν σ : Type) where
  catalog : Catalog ν
  setting : Setting σ
  tracker : Option Tracker

namespace Client

variable {ν : Type} [Fraction ν] {σ : Type}

def withCatalog (c : Client ν σ) (catalog : Catalog ν) : Client ν σ := { c with catalog := catalog }

def evaluate (c : Client ν σ) (key : String) (a : Value) (w : World σ) :
    Except Fault (Decision ν) × World σ :=
  c.catalog.evaluate c.setting c.tracker key a.orEmpty w

/-- Runs an experiment that belongs to no feature. -/
def run (c : Client ν σ) (e : Experiment ν) (a : Value) (w : World σ) :
    Except Fault (Assignment ν) × World σ :=
  match e.assign c.setting.store c.setting.options a.orEmpty w with
  | (.error fault, w) => (.error fault, w)
  | (.ok x, w) => (.ok x, Catalog.report c.tracker (x.exposure? e.key) w)

/-- Reads something off the decision on a feature. -/
def ask {α : Type} (c : Client ν σ) (read : Decision ν → α) (key : String) (a : Value)
    (w : World σ) : Except Fault α × World σ :=
  let (d, w) := c.evaluate key a w
  (d.map read, w)

def isOn (c : Client ν σ) := c.ask Decision.isOn

def isOff (c : Client ν σ) := c.ask Decision.isOff

end Client

/-- What a caller gets for a value when it wants another in its stead. -/
inductive Accessor
  | value
  | bool
  | str
  | number
  | json
  deriving DecidableEq, Repr

namespace Accessor

def accepts : Accessor → Value → Bool
  | .value, v =>
    match v with
    | .null => false
    | _ => true
  | .bool, .bool _ => true
  | .str, .str _ => true
  | .number, .int _ => true
  | .number, .float _ => true
  | .json, .list _ => true
  | .json, .map _ => true
  | _, _ => false

def pick (x : Accessor) (fallback v : Value) : Value := if x.accepts v then v else fallback

end Accessor

def Client.get {ν : Type} [Fraction ν] {σ : Type} (c : Client ν σ) (x : Accessor)
    (fallback : Value) :=
  c.ask fun d => x.pick fallback d.value

end FlagEngine
