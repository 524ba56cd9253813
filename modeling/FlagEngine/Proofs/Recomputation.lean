import FlagEngine.Proofs.DoubleQuotient
import FlagEngine.Proofs.Exclusion
import FlagEngine.Proofs.Resolution

/-! What a decision says of itself. Its columns name the rule that decided, and everything else in
them can be computed again from that rule, the attributes, and the memory that the rules before it
left. `Decision.Shows` has all columns of a decision; `Catalog.Accounts` the ways in which they may
be filled, one for each way to come to a decision. -/
namespace FlagEngine

variable {ν : Type} [Fraction ν]

namespace Rollout

/-- A rollout with buckets covers what lies in one of them, another what its coverage reaches. -/
theorem covers_iff (r : Rollout ν) (n : ν) : r.covers n = true ↔
    (r.buckets ≠ [] ∧ ∃ b ∈ r.buckets, b.low ≤ n ∧ n < b.high) ∨
      (r.buckets = [] ∧ ∃ c ∈ r.coverage, n ≤ c) := by
  unfold covers
  rcases hb : r.buckets with _ | ⟨b,bs⟩
  · rcases r.coverage with _ | c <;> simp
  · simp [Bucket.anyHas,Bucket.has]

end Rollout

/-- Points lie in the unit interval, one excluded. -/
theorem Hash.mem_unit_of_point? [Fraction.Proper ν] {seed value : String} {version : Int} {n : ν}
    (h : point? seed value version = some n) : Fraction.zero ≤ n ∧ n < Fraction.one := by
  have hthousandths : thousandths seed value < 1000 := Nat.mod_lt _ (by decide)
  have htenThousandths : tenThousandths seed value < 10000 := Nat.mod_lt _ (by decide)
  unfold point? at h
  split at h
  · rw [← Option.some.inj h]
    exact ⟨Fraction.Proper.zero_le_ofRatio htenThousandths (by decide),
      Fraction.Proper.ofRatio_lt_one htenThousandths (by decide)⟩
  · split at h
    · rw [← Option.some.inj h]
      exact ⟨Fraction.Proper.zero_le_ofRatio hthousandths (by decide),
        Fraction.Proper.ofRatio_lt_one hthousandths (by decide)⟩
    · cases h

namespace Experiment

variable {e : Experiment ν} {o : Options} {a : Value} {m : Memory}

/-- With fewer than two variations everybody is excluded. -/
theorem two_le_of_entry {entry : Entry} (h : e.entry o a = .ok entry)
    (hentry : ∀ r, entry ≠ .excluded r) : 2 ≤ e.count := by
  by_contra hlt
  unfold Experiment.entry at h
  split at h
  · cases h
  · rw [if_pos (by omega)] at h
    exact hentry _ (Except.ok.inj h).symm

/-- How an origin comes about. -/
inductive Accounts (e : Experiment ν) (a : Value) (m : Memory) (i : Nat) : Origin ν → Prop
  | forced : Accounts e a m i (.forced (e.subject? a))
  | sticky {subject : String} (subject_eq : e.subject? a = some subject)
    (held : m.get? e.key subject = some (i : Int)) : Accounts e a m i (.sticky subject)
  | placed {subject : String} {n : ν} (subject_eq : e.subject? a = some subject)
    (not_held : e.held? m subject = none)
    (point : Hash.point? e.seedOrKey subject e.hashVersion = some n)
    (chosen : Bucket.choose n e.ranges = some i) : Accounts e a m i (.placed subject n)

theorem accounts_of_takeIn {i : Int} {origin : Origin ν} {x : Inclusion ν}
    (h : e.takeIn i origin = .included x) (horigin : ∀ j : Nat, j = i → e.Accounts a m j origin) :
    e.variations[x.index]? = some x.value ∧ e.Accounts a m x.index x.origin := by
  obtain ⟨hi,rfl,-,hvalue⟩ := takeIn_eq_included h
  exact ⟨hvalue,horigin x.index hi⟩

/-- Whoever is included has a value among two or more, and an origin that is accounted for. -/
theorem accounts_of_included {w : World Memory} {x : Inclusion ν}
    (h : (e.assign (some Memory.store) o a w).1 = .ok (.included x)) :
    2 ≤ e.count ∧ e.variations[x.index]? = some x.value ∧
      e.Accounts a w.store x.index x.origin := by
  rw [outcome_assign] at h
  rcases hentry : e.entry o a with fault | entry <;> simp only [course,hentry] at h
  · cases h
  · cases entry with
    | excluded r => cases h
    | forced i =>
      exact ⟨two_le_of_entry hentry (by simp),
        accounts_of_takeIn (Except.ok.inj h) fun j _ => .forced⟩
    | pinned i =>
      exact ⟨two_le_of_entry hentry (by simp),
        accounts_of_takeIn (Except.ok.inj h) fun j _ => .forced⟩
    | eligible subject =>
      have hsubject := (entry_eq_eligible hentry).1
      refine ⟨two_le_of_entry hentry (by simp),?_⟩
      dsimp only at h
      rcases hheld : e.held? w.store subject with _ | i
      · rw [enrollment_of_not_held hheld] at h
        rcases hdraw : e.draw subject with r | ⟨i,n⟩ <;> rw [hdraw] at h
        · cases h
        · obtain ⟨hpoint,hchosen⟩ := (draw_eq_ok_iff e subject i n).mp hdraw
          refine accounts_of_takeIn (Except.ok.inj h) fun j hj => ?_
          obtain rfl : j = i := Int.ofNat.inj hj
          exact .placed hsubject hheld hpoint hchosen
      · rw [enrollment_of_held hheld] at h
        refine accounts_of_takeIn (Except.ok.inj h) fun j hj => ?_
        obtain rfl : j = i := Int.ofNat.inj hj
        exact .sticky hsubject ((e.held?_eq_some_iff w.store subject j).mp hheld).1

end Experiment

namespace Decision

/-- All columns of a decision. -/
structure Shows (d : Decision ν) (kind : DecisionKind) (value : Value) (rule? : Option Nat)
    (variation? : Option (String × Nat)) (subject? : Option String) (point? : Option ν)
    (sticky : Bool) : Prop where
  kind_eq : d.kind = kind
  value_eq : d.value = value
  rule_eq : d.ruleIndex? = rule?
  experiment_eq : d.experimentKey? = variation?.map (·.1)
  variation_eq : d.variationIndex? = variation?.map (·.2)
  subject_eq : d.subject? = subject?
  point_eq : d.point? = point?
  sticky_eq : d.isSticky = sticky

end Decision

/-- How a rule of a feature comes to a decision in a world: which rule it is, and what it asks of
attributes and memory. -/
inductive Feature.Accounts (f : Feature ν) (a : Value) (w : World Memory) (r : Nat)
    (d : Decision ν) : Prop
  | force {c : Option Condition} {value : Value} {filters : List (Filter ν)}
    (rule : f.rules[r]? = some (.when c (.force value filters)))
    (shows : d.Shows .force value (some r) none none none false)
  | rollout {c : Option Condition} {x : Rollout ν} {subject : String} {n : ν}
    (rule : f.rules[r]? = some (.when c (.rollout x)))
    (subject_eq : a.subject? x.hashAttribute = some subject)
    (point : Hash.point? x.seed subject x.hashVersion = some n)
    (covered : (x.buckets ≠ [] ∧ ∃ b ∈ x.buckets, b.low ≤ n ∧ n < b.high) ∨
      (x.buckets = [] ∧ ∃ c ∈ x.coverage, n ≤ c))
    (shows : d.Shows .rollout x.value (some r) none (some subject) (some n) false)
  | sticky {c : Option Condition} {e : Experiment ν} {i : Nat} {value : Value} {subject : String}
    (rule : f.rules[r]? = some (.when c (.experiment e))) (many : 2 ≤ e.count)
    (variation : e.variations[i]? = some value) (subject_eq : e.subject? a = some subject)
    (held : w.store.get? e.key subject = some (i : Int))
    (shows : d.Shows .experiment value (some r) (some (e.key, i)) (some subject) none true)
  | placed {c : Option Condition} {e : Experiment ν} {i : Nat} {value : Value} {subject : String}
    {n : ν} (rule : f.rules[r]? = some (.when c (.experiment e))) (many : 2 ≤ e.count)
    (variation : e.variations[i]? = some value) (subject_eq : e.subject? a = some subject)
    (not_held : e.held? w.store subject = none)
    (point : Hash.point? e.seedOrKey subject e.hashVersion = some n)
    (unit : Fraction.zero ≤ n ∧ n < Fraction.one) (chosen : Bucket.choose n e.ranges = some i)
    (shows : d.Shows .experiment value (some r) (some (e.key, i)) (some subject) (some n) false)
  | forced {c : Option Condition} {e : Experiment ν} {i : Nat} {value : Value}
    (rule : f.rules[r]? = some (.when c (.experiment e))) (many : 2 ≤ e.count)
    (variation : e.variations[i]? = some value)
    (shows : d.Shows .forcedVariation value (some r) (some (e.key, i)) (e.subject? a) none false)

/-- How a catalog comes to a decision on a key. -/
inductive Catalog.Accounts (c : Catalog ν) (o : Options) (key : String) (a : Value)
    (w : World Memory) (d : Decision ν) : Prop
  | unknown (get_eq : c.get? key = none)
    (shows : d.Shows .unknownFeature .null none none none none false)
  | default {f : Feature ν} (get_eq : c.get? key = some f)
    (shows : d.Shows .defaultValue f.default none none none none false)
  /-- The rules before have left the world in which the rule decides. -/
  | rule {f : Feature ν} {r : Nat} {u : World Memory} (get_eq : c.get? key = some f)
    (passes : f.Passes ⟨some Memory.store,o⟩ a 0 (f.rules.take r) w u) (rule : f.Accounts a u r d)

variable [Fraction.Proper ν]

theorem Feature.accounts_of_decidedAt {f : Feature ν} {o : Options} {a : Value} {w u : World Memory}
    {r : Nat} {x : Rule ν} {d : Decision ν}
    (h : f.DecidedAt ⟨some Memory.store,o⟩ a w r x u d.verdict) : f.Accounts a u r d := by
  obtain ⟨k,v⟩ := d
  obtain ⟨hrule,-,hgives⟩ := h
  cases hgives with
  | force answers holds passes => exact .force hrule ⟨rfl,rfl,rfl,rfl,rfl,rfl,rfl,rfl⟩
  | @rollout c x subject n answers holds passes covered =>
    obtain ⟨hsubject,hpoint,hcovers⟩ := (Rollout.covered?_eq_some_iff x a subject n).mp covered
    exact .rollout hrule hsubject hpoint ((Rollout.covers_iff x n).mp hcovers)
      ⟨rfl,rfl,rfl,rfl,rfl,rfl,rfl,rfl⟩
  | @experiment c e x answers holds included shown =>
    obtain ⟨hmany,hvariation,horigin⟩ := Experiment.accounts_of_included included
    obtain ⟨i,value,origin,key,name,passthrough⟩ := x
    cases horigin with
    | forced => exact .forced hrule hmany hvariation ⟨rfl,rfl,rfl,rfl,rfl,rfl,rfl,rfl⟩
    | sticky hsubject hheld =>
      exact .sticky hrule hmany hvariation hsubject hheld ⟨rfl,rfl,rfl,rfl,rfl,rfl,rfl,rfl⟩
    | placed hsubject hheld hpoint hchosen =>
      exact .placed hrule hmany hvariation hsubject hheld hpoint (Hash.mem_unit_of_point? hpoint)
        hchosen ⟨rfl,rfl,rfl,rfl,rfl,rfl,rfl,rfl⟩

omit [Fraction.Proper ν] in
/-- A rule comes to no decision of a kind that is without rules. -/
theorem Feature.Accounts.kind_ne {f : Feature ν} {a : Value} {w : World Memory} {r : Nat}
    {d : Decision ν} (h : f.Accounts a w r d) : d.kind ≠ .unknownFeature := by
  cases h <;> (rename_i shows; rw [shows.kind_eq]; decide)

/-- Every decision of a catalog on memory is accounted for, in all of its columns. -/
theorem decisions_account_for_themselves (c : Catalog ν) (o : Options) (tracker? : Option Tracker)
    (key : String) (a : Value) (w : World Memory) (d : Decision ν)
    (h : (c.evaluate ⟨some Memory.store,o⟩ tracker? key a w).1 = .ok d) :
    d.feature = key ∧ (d.kind = .unknownFeature ↔ c.contains key = false) ∧
      c.Accounts o key a w d := by
  rcases hf : c.get? key with _ | f
  · rw [Catalog.evaluate_of_unknown hf] at h
    obtain rfl : _ = d := Except.ok.inj h
    have hcontains : c.contains key = false := by rw [Catalog.contains,hf]; rfl
    exact ⟨rfl,⟨fun _ => hcontains,fun _ => rfl⟩,.unknown hf ⟨rfl,rfl,rfl,rfl,rfl,rfl,rfl,rfl⟩⟩
  · have hkey : f.key = key := by simpa using List.find?_some hf
    have hcontains : c.contains key = true := by rw [Catalog.contains,hf]; rfl
    rw [(Catalog.evaluate_of_get? hf _ tracker? a w).1] at h
    obtain ⟨hfeature,⟨hv,-⟩ | ⟨r,x,u,hdecided⟩⟩ := (f.resolve_eq_ok_iff _ a w d).mp h
    · obtain ⟨k,v⟩ := d
      obtain rfl : v = .default f.default := hv
      refine ⟨hfeature.trans hkey,?_,.default hf ⟨rfl,rfl,rfl,rfl,rfl,rfl,rfl,rfl⟩⟩
      simp [Decision.kind,hcontains]
    · have hrule := Feature.accounts_of_decidedAt hdecided
      refine ⟨hfeature.trans hkey,?_,.rule hf hdecided.passes hrule⟩
      simp [hrule.kind_ne,hcontains]

/-- A first experiment assigns but leaves the decision to a second one of the same key. -/
def Catalog.relaying : Catalog Float :=
  let e : Experiment Float := .ofVariations "exp" [.str "a",.str "b"]
  ⟨[⟨"banner",.null,
    [.when none (.experiment {e with info := [⟨none,none,true⟩,⟨none,none,true⟩]}),
      .when none (.experiment e)]⟩]⟩

theorem relayed_decision_accounts_for_itself :
    let a : Value := .map [(.str "id",.str "u1")]
    let w : World Memory := ⟨[],[],[]⟩
    ∃ d, (Catalog.relaying.evaluate ⟨some Memory.store,.default⟩ none "banner" a w).1 = .ok d ∧
      d.ruleIndex? = some 1 ∧ d.isSticky = true ∧
        Catalog.relaying.Accounts .default "banner" a w d := by
  intro a w
  have hcolumns : (Catalog.relaying.evaluate ⟨some Memory.store,.default⟩ none "banner" a
      w).1.toOption.map (fun d => (d.ruleIndex?,d.isSticky)) = some (some 1,true) := by
    decide +kernel
  rcases hd : (Catalog.relaying.evaluate ⟨some Memory.store,.default⟩ none "banner" a w).1 with
    fault | d
  · rw [hd] at hcolumns
    cases hcolumns
  · simp only [hd,Except.toOption,Option.map_some,Option.some.injEq,Prod.mk.injEq] at hcolumns
    obtain ⟨hrule,hsticky⟩ := hcolumns
    have haccounts := decisions_account_for_themselves Catalog.relaying .default none "banner" a w
      d hd
    exact ⟨d,rfl,hrule,hsticky,haccounts.2.2⟩

end FlagEngine
