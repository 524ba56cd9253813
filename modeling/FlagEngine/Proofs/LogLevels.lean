import FlagEngine.Log
import Mathlib.Data.List.Basic

/-! Calls that set the log output up, one after another. The first call decides for good: from its
level on lines are written, and where its level names a setting of another kind it fails and leaves
the usual threshold of outputs behind. Later calls do not fail, and have no say in what is
written. -/
namespace FlagEngine

namespace Severity

/-- A name in capitals. -/
def capitalized (name : String) : String := String.ofList (name.toList.flatMap capitals)

def standard : List (String × Nat) :=
  [("DEBUG",10),("INFO",20),("WARNING",30),("WARN",30),("ERROR",40),("CRITICAL",50),("FATAL",50),
    ("NOTSET",0)]

/-- The weight of a standard level, however its letters are written; any other name counts as that
of the usual level. -/
def asked (name : String) : Nat := (standard.lookup (capitalized name)).getD 20

/-- What a name of another setting ends in. -/
def refusal? (name : String) : Option Fault :=
  if capitalized name = "BASIC_FORMAT" then some .levelIsText
  else if capitalized name = "_STYLES" then some .levelIsTable
  else none

theorem capitals_toUpper (c : Char) : capitals c.toUpper = capitals c := by
  by_cases hsmall : c.toNat < 128
  · have hall : ∀ n ∈ List.range 128,
        capitals (Char.ofNat n).toUpper = capitals (Char.ofNat n) := by decide +kernel
    have hc := hall c.toNat (List.mem_range.mpr hsmall)
    rwa [Char.ofNat_toNat] at hc
  · have hupper : c.toUpper = c := by
      have hz : ¬ c.val ≤ 'z'.val := by
        rw [UInt32.le_iff_toNat_le]
        exact fun hle => hsmall (Nat.lt_of_le_of_lt hle (by decide))
      exact dif_neg fun h => hz h.2
    rw [hupper]

theorem capitalized_toUpper (name : String) : capitalized name.toUpper = capitalized name := by
  unfold capitalized String.toUpper
  rw [String.toList_map,List.flatMap_map]
  simp only [capitals_toUpper]

theorem asked_of_toUpper {name standardName : String} {n : Nat} (h : (standardName,n) ∈ standard)
    (hname : name.toUpper = standardName) : asked name = n := by
  have hall : ∀ e ∈ standard, standard.lookup (capitalized e.1) = some e.2 := by decide +kernel
  unfold asked
  rw [← capitalized_toUpper,hname,hall _ h]
  rfl

theorem named_eq (name : String) : named name =
    if capitalized name = "BASIC_FORMAT" then .text
    else if capitalized name = "_STYLES" then .table
    else .weight (asked name) := by
  have hcapitals : String.ofList (name.toList.flatMap capitals) = capitalized name := rfl
  unfold named asked
  rw [hcapitals]
  generalize capitalized name = s
  split
  case h_11 hdebug hinfo hwarning hwarn herror hcritical hfatal hnotset htext htable =>
    have hnone : standard.lookup s = none := by
      rw [List.lookup_eq_none_iff]
      simpa [standard] using ⟨hdebug,hinfo,hwarning,hwarn,herror,hcritical,hfatal,hnotset⟩
    rw [if_neg htext,if_neg htable,hnone]
    rfl
  all_goals rfl

theorem asked_mem (name : String) : asked name ∈ [0,10,20,30,40,50] := by
  unfold asked
  cases h : standard.lookup (capitalized name) with
  | none => decide
  | some n =>
    obtain ⟨before,after,hstandard,-⟩ := List.lookup_eq_some_iff.mp h
    have hmem : (capitalized name,n) ∈ standard := by simp [hstandard]
    have hall : ∀ e ∈ standard, e.2 ∈ [0,10,20,30,40,50] := by decide
    exact hall _ hmem

/-- Weights that let the same severities through. None is below that of debugging. -/
theorem same_reach_iff {m n : Nat} (hm : m ∈ [0,10,20,30,40,50]) (hn : n ∈ [0,10,20,30,40,50]) :
    (∀ s : Severity, m ≤ s.weight ↔ n ≤ s.weight) ↔ max m debug.weight = max n debug.weight := by
  constructor
  · intro h
    -- there is a severity for each weight, so the five answers tell the weights apart
    have hdebug := h .debug
    have hinfo := h .info
    have hwarning := h .warning
    have herror := h .error
    have hcritical := h .critical
    simp only [weight] at *
    simp only [List.mem_cons,List.not_mem_nil,or_false] at hm hn
    omega
  · intro h s
    cases s <;> simp only [weight] at * <;> omega

end Severity

/-- A call that sets the output up: for a level and a format, or from settings. -/
inductive LogCall
  | direct (level format : String)
  | settled (s : LogSettings)

namespace LogCall

def level : LogCall → String
  | direct level _ => level
  | settled s => s.level

def apply (o : LogOutput) : LogCall → Except Fault Logger × LogOutput
  | direct level format => o.configure level (format == "json")
  | settled s => o.configureFrom s

/-- The output after some calls. -/
def run (o : LogOutput) (calls : List LogCall) : LogOutput :=
  calls.foldl (fun o c => (c.apply o).2) o

/-- The threshold that the first call leaves: that of its level, or the usual one of outputs if it
fails. -/
def firstThreshold (c : LogCall) : Nat :=
  match Severity.refusal? c.level with
  | some _ => Severity.warning.weight
  | none => Severity.asked c.level

/-- What the first call answers. -/
def firstAnswer (c : LogCall) : Except Fault Logger :=
  match Severity.refusal? c.level with
  | some f => .error f
  | none => .ok ⟨[],none⟩

theorem apply_eq (o : LogOutput) (c : LogCall) :
    ∃ isJson, c.apply o = o.configure c.level isJson := by
  cases c with
  | direct level format => exact ⟨format == "json",rfl⟩
  | settled s => exact ⟨s.format = .json,rfl⟩

/-- The first call, whatever its format. -/
theorem apply_of_unset {o : LogOutput} (h : o.threshold = none) (c : LogCall) :
    (c.apply o).1 = c.firstAnswer ∧ (c.apply o).2.threshold = some c.firstThreshold := by
  obtain ⟨isJson,heq⟩ := c.apply_eq o
  rw [heq]
  unfold LogOutput.configure LogOutput.setThreshold firstAnswer firstThreshold Severity.refusal?
  rw [h,Severity.named_eq]
  split_ifs
  · exact ⟨rfl,rfl⟩
  · exact ⟨rfl,rfl⟩
  · exact ⟨rfl,rfl⟩

/-- Every other call. -/
theorem apply_of_set {o : LogOutput} {n : Nat} (h : o.threshold = some n) (c : LogCall) :
    (c.apply o).1 = .ok ⟨[],none⟩ ∧ (c.apply o).2.threshold = some n := by
  obtain ⟨isJson,heq⟩ := c.apply_eq o
  rw [heq]
  unfold LogOutput.configure LogOutput.setThreshold
  rw [h]
  exact ⟨rfl,h⟩

/-- No call changes a threshold that is set. -/
theorem threshold_run_of_set {o : LogOutput} {n : Nat} (h : o.threshold = some n)
    (calls : List LogCall) : (run o calls).threshold = some n := by
  induction calls generalizing o with
  | nil => exact h
  | cons c calls ih => exact ih (apply_of_set h c).2

theorem threshold_run (first : LogCall) (calls : List LogCall) :
    (run .fresh (first :: calls)).threshold = some first.firstThreshold :=
  threshold_run_of_set (apply_of_unset rfl first).2 calls

theorem writes_of_threshold {o : LogOutput} {n : Nat} (h : o.threshold = some n) (s : Severity) :
    o.writes s = true ↔ n ≤ s.weight := by
  unfold LogOutput.writes
  rw [h]
  exact decide_eq_true_iff

section Sequence

variable {first c : LogCall} {rest before after : List LogCall}

/-- What a call of a sequence answers. -/
theorem answer_of_split (h : first :: rest = before ++ c :: after) :
    (c.apply (run .fresh before)).1 = if before = [] then first.firstAnswer else .ok ⟨[],none⟩ := by
  cases before with
  | nil =>
    obtain ⟨rfl,-⟩ := List.cons.inj h
    exact (apply_of_unset rfl first).1
  | cons _ before => exact (apply_of_set (threshold_run _ before) c).1

/-- The threshold after a call of a sequence. -/
theorem threshold_of_split (h : first :: rest = before ++ c :: after) :
    (c.apply (run .fresh before)).2.threshold = some first.firstThreshold := by
  cases before with
  | nil =>
    obtain ⟨rfl,-⟩ := List.cons.inj h
    exact (apply_of_unset rfl first).2
  | cons _ before =>
    obtain ⟨rfl,-⟩ := List.cons.inj h
    exact (apply_of_set (threshold_run first before) c).2

end Sequence

/-- A call after others gives a logger, and through it the severities are written that are not below
its level. -/
structure Honoured (before : List LogCall) (c : LogCall) : Prop where
  answered : ∃ l, (c.apply (run .fresh before)).1 = .ok l
  written : ∀ s : Severity, (c.apply (run .fresh before)).2.writes s = true ↔
    Severity.asked c.level ≤ s.weight

theorem firstThreshold_mem (c : LogCall) : c.firstThreshold ∈ [0,10,20,30,40,50] := by
  unfold firstThreshold
  split
  · decide
  · exact Severity.asked_mem c.level

theorem firstThreshold_of_understood {c : LogCall} (h : Severity.refusal? c.level = none) :
    c.firstThreshold = Severity.asked c.level := by
  unfold firstThreshold
  rw [h]

theorem honoured_nil_iff (c : LogCall) :
    Honoured [] c ↔ Severity.refusal? c.level = none := by
  constructor
  · rintro ⟨⟨l,hl⟩,-⟩
    rw [(apply_of_unset rfl c).1,firstAnswer] at hl
    cases h : Severity.refusal? c.level with
    | none => rfl
    | some f => rw [h] at hl; cases hl
  · intro h
    refine ⟨⟨⟨[],none⟩,?_⟩,fun s => ?_⟩
    · rw [(apply_of_unset rfl c).1,firstAnswer,h]
    · rw [writes_of_threshold (apply_of_unset rfl c).2,firstThreshold_of_understood h]

theorem honoured_cons_iff (first : LogCall) (before : List LogCall) (c : LogCall) :
    Honoured (first :: before) c ↔ max first.firstThreshold Severity.debug.weight =
      max (Severity.asked c.level) Severity.debug.weight := by
  obtain ⟨hanswer,hthreshold⟩ := apply_of_set (threshold_run first before) c
  rw [← Severity.same_reach_iff first.firstThreshold_mem (Severity.asked_mem c.level)]
  constructor
  · exact fun h s => (writes_of_threshold hthreshold s).symm.trans (h.written s)
  · exact fun h => ⟨⟨_,hanswer⟩,fun s => (writes_of_threshold hthreshold s).trans (h s)⟩

/-- A sequence of calls is honoured throughout if its first level is understood and all others ask
for the same, as far as severities tell. -/
theorem all_honoured_iff (first : LogCall) (rest : List LogCall) :
    (∀ before c after, first :: rest = before ++ c :: after → Honoured before c) ↔
      Severity.refusal? first.level = none ∧ ∀ c ∈ rest,
        max (Severity.asked first.level) Severity.debug.weight =
          max (Severity.asked c.level) Severity.debug.weight := by
  constructor
  · intro h
    have hfirst := (honoured_nil_iff first).mp (h [] first rest rfl)
    refine ⟨hfirst,fun c hc => ?_⟩
    obtain ⟨before,after,rfl⟩ := List.append_of_mem hc
    rw [← firstThreshold_of_understood hfirst]
    exact (honoured_cons_iff first before c).mp (h (first :: before) c after rfl)
  · rintro ⟨hfirst,hrest⟩ before c after heq
    cases before with
    | nil =>
      obtain ⟨rfl,-⟩ := List.cons.inj heq
      exact (honoured_nil_iff first).mpr hfirst
    | cons first' before =>
      obtain ⟨rfl,rfl⟩ := List.cons.inj heq
      rw [honoured_cons_iff,firstThreshold_of_understood hfirst]
      exact hrest c (by simp)

/-- The first call of a sequence decides. Standard names count however their letters are written. A
call fails only if it is the first and its level is the name of another setting; after every call
those severities are written that are not below the level of the first one, or below that of
warnings if it failed. So the calls do what each of them asks for if and only if the first level is
understood and no later one asks for anything else that severities could tell. -/
theorem the_first_call_decides (first : LogCall) (rest : List LogCall) :
    (∀ name e, e ∈ Severity.standard → name.toUpper = e.1 → Severity.asked name = e.2) ∧
      (∀ before c after, first :: rest = before ++ c :: after →
        (c.apply (run .fresh before)).1 =
            (if before = [] then first.firstAnswer else .ok ⟨[],none⟩) ∧
          ∀ s : Severity, (c.apply (run .fresh before)).2.writes s = true ↔
            first.firstThreshold ≤ s.weight) ∧
      ((∀ before c after, first :: rest = before ++ c :: after → Honoured before c) ↔
        Severity.refusal? first.level = none ∧ ∀ c ∈ rest,
          max (Severity.asked first.level) Severity.debug.weight =
            max (Severity.asked c.level) Severity.debug.weight) := by
  refine ⟨?_,?_,all_honoured_iff first rest⟩
  · rintro name ⟨standardName,n⟩ hmem hname
    exact Severity.asked_of_toUpper hmem hname
  · intro before c after h
    exact ⟨answer_of_split h,fun s => writes_of_threshold (threshold_of_split h) s⟩

theorem a_level_is_refused_and_another_ignored :
    ((direct "BASIC_FORMAT" "json").apply .fresh).1 = .error .levelIsText ∧
      ¬ Honoured [] (.direct "BASIC_FORMAT" "json") ∧
      ¬ Honoured [.direct "INFO" "json"] (.direct "DEBUG" "json") := by
  refine ⟨rfl,fun h => ?_,fun h => ?_⟩
  · obtain ⟨l,hl⟩ := h.answered
    cases hl
  · have hdebug := (h.written .debug).mpr (by decide +kernel)
    revert hdebug
    decide +kernel

end LogCall
end FlagEngine
