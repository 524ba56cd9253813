import FlagEngine.World

/-! A store in memory: one index for each experiment and subject, the last one written. -/
namespace FlagEngine

abbrev Memory := List ((String × String) × Int)

namespace Memory

def get? (m : Memory) (experiment subject : String) : Option Int := m.lookup (experiment, subject)

def set (m : Memory) (experiment subject : String) (index : Int) : Memory :=
  match m with
  | [] => [((experiment, subject), index)]
  | (k, i) :: m =>
    if k = (experiment, subject) then (k, index) :: m else (k, i) :: set m experiment subject index

@[simp] theorem get?_nil (experiment subject : String) : get? [] experiment subject = none := rfl

theorem get?_set_self (m : Memory) (experiment subject : String) (index : Int) :
    (m.set experiment subject index).get? experiment subject = some index := by
  induction m with
  | nil => simp [set,get?]
  | cons e m ih =>
    obtain ⟨k,i⟩ := e
    by_cases h : k = (experiment, subject)
    · simp [set,get?,h]
    · have h' : ((experiment, subject) == k) = false := by simpa using fun e => h e.symm
      simpa [set,get?,h,List.lookup_cons,h'] using ih

theorem get?_set_of_ne (m : Memory) {experiment subject experiment' subject' : String} (index : Int)
    (h : (experiment', subject') ≠ (experiment, subject)) :
    (m.set experiment subject index).get? experiment' subject' = m.get? experiment' subject' := by
  have hne : ((experiment', subject') == (experiment, subject)) = false := by simpa using h
  induction m with
  | nil => simp [set,get?,List.lookup_cons,hne]
  | cons e m ih =>
    obtain ⟨k,i⟩ := e
    by_cases hk : k = (experiment, subject)
    · simp [set,get?,hk,List.lookup_cons,hne]
    · cases hl : ((experiment', subject') == k) <;> simp_all [set,get?,List.lookup_cons]

/-- Writing down what is there already changes nothing, not even the order. -/
theorem set_eq_self {m : Memory} {experiment subject : String} {index : Int}
    (h : m.get? experiment subject = some index) : m.set experiment subject index = m := by
  induction m with
  | nil => simp at h
  | cons e m ih =>
    obtain ⟨k,i⟩ := e
    by_cases hk : k = (experiment, subject)
    · simp_all [set,get?]
    · have h' : ((experiment, subject) == k) = false := by simpa using fun e => hk e.symm
      have ht : get? m experiment subject = some index := by
        simpa [get?,List.lookup_cons,h'] using h
      simp [set,hk,ih ht]

/-- The store that never fails. -/
def store : Store Memory where
  read m experiment subject :=
    (.found (((m.get? experiment subject).map Value.int).getD .null), m)
  write m experiment subject index := (true, m.set experiment subject index)

end Memory
end FlagEngine
