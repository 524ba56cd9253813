import FlagEngine.Event

/-! What an evaluation may touch: a store that keeps assignments, the exposures reported so far, and
the events noted. A store is any behaviour: reads and writes may fail, and a read may answer
anything. -/
namespace FlagEngine

/-- A subject was shown a variation of an experiment, which a feature or nobody asked for. -/
structure Exposure where
  feature : Option String
  experiment : String
  index : Nat
  subject : String
  deriving DecidableEq, Repr

inductive Reading
  | failed
  | found (v : Value)

structure Store (σ : Type) where
  read : σ → String → String → Reading × σ
  write : σ → String → String → Nat → Bool × σ

structure World (σ : Type) where
  store : σ
  exposures : List Exposure
  events : List Event

namespace World

variable {σ : Type}

def note (w : World σ) (e : Event) : World σ := { w with events := w.events ++ [e] }

def noteAll (w : World σ) (es : List Event) : World σ := { w with events := w.events ++ es }

def withStore (w : World σ) (s : σ) : World σ := { w with store := s }

def expose (w : World σ) (x : Exposure) : World σ := { w with exposures := w.exposures ++ [x] }

@[simp] theorem store_note (w : World σ) (e : Event) : (w.note e).store = w.store := rfl
@[simp] theorem store_noteAll (w : World σ) (es : List Event) :
    (w.noteAll es).store = w.store := rfl
@[simp] theorem store_withStore (w : World σ) (s : σ) : (w.withStore s).store = s := rfl
@[simp] theorem store_expose (w : World σ) (x : Exposure) : (w.expose x).store = w.store := rfl
@[simp] theorem exposures_note (w : World σ) (e : Event) :
    (w.note e).exposures = w.exposures := rfl
@[simp] theorem exposures_noteAll (w : World σ) (es : List Event) :
    (w.noteAll es).exposures = w.exposures := rfl
@[simp] theorem exposures_withStore (w : World σ) (s : σ) :
    (w.withStore s).exposures = w.exposures := rfl

end World

/-- Reports an exposure; says whether the report was taken, given all reported so far. -/
structure Tracker where
  takes : List Exposure → Exposure → Bool

def Tracker.report {σ : Type} (t : Tracker) (w : World σ) (x : Exposure) : World σ :=
  let w := w.expose x
  if t.takes w.exposures x then w else w.note (.trackingFailed x.feature x.experiment)

end FlagEngine
