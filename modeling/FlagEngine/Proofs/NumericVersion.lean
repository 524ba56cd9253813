import FlagEngine.Proofs.VersionOrder

/-! Versions of numbers only. A number that leaves room for a blank compares by value with any
other, but two that leave none compare as they are written, and then more digits do not mean more.
Version operators therefore follow the values unless the first two numbers that differ are out of
order in this way. -/
namespace FlagEngine
namespace Version

/-- Numbers in decimal with dots between them. -/
def ofNumbers (ns : List ℕ) : String := String.ofList (dotted (ns.map (Nat.toDigits 10)))

/-- What an operator with the second version says of the first. -/
def OperatorSays (r : VersionRelation) (ms ns : List ℕ) (b : Bool) : Prop :=
  Condition.TestSays (.obj [(r.name,.str (ofNumbers ns))]) (some (.str (ofNumbers ms))) b

/-- How two numbers of a version compare: by value, or as they are written if neither is padded. -/
def compareWritten (m n : ℕ) : Ordering :=
  if 10000 ≤ m ∧ 10000 ≤ n then cmp (Nat.toDigits 10 m) (Nat.toDigits 10 n) else cmp m n

/-- Neither number is padded, and they are written in an order that is not theirs. -/
def Misplaced (m n : ℕ) : Prop :=
  10000 ≤ m ∧ 10000 ≤ n ∧ ¬ (Nat.toDigits 10 m < Nat.toDigits 10 n ↔ m < n)

/-- The first two numbers that differ are misplaced. -/
inductive FirstMisplaced : List ℕ → List ℕ → Prop
  | here {m n : ℕ} {ms ns : List ℕ} (h : Misplaced m n) : FirstMisplaced (m :: ms) (n :: ns)
  | later {m : ℕ} {ms ns : List ℕ} (h : FirstMisplaced ms ns) : FirstMisplaced (m :: ms) (m :: ns)

/-! ### Orders of numbers -/

theorem toDigits_injective : Function.Injective (Nat.toDigits 10) := by
  intro m n h
  have hread := congrArg (fun ds => Nat.ofDigitChars 10 ds 0) h
  simpa using hread

theorem compareWritten_of_long {m n : ℕ} (h : 10000 ≤ m ∧ 10000 ≤ n) :
    compareWritten m n = cmp (Nat.toDigits 10 m) (Nat.toDigits 10 n) := if_pos h

theorem compareWritten_of_short {m n : ℕ} (h : ¬ (10000 ≤ m ∧ 10000 ≤ n)) :
    compareWritten m n = cmp m n := if_neg h

theorem compares_compareWritten (m n : ℕ) :
    (compareWritten m n).Compares (pad (Nat.toDigits 10 m)) (pad (Nat.toDigits 10 n)) := by
  by_cases h : 10000 ≤ m ∧ 10000 ≤ n
  · rw [compareWritten_of_long h,pad_of_long h.1,pad_of_long h.2]
    exact compares_cmp_chars _ _
  · have hlt : ∀ m n, ¬ (10000 ≤ m ∧ 10000 ≤ n) → m < n →
        pad (Nat.toDigits 10 m) < pad (Nat.toDigits 10 n) := by
      intro m n hshort hlt
      exact pad_lt_pad_of_short hlt (by omega)
    rw [compareWritten_of_short h]
    exact compares_map (f := fun k => pad (Nat.toDigits 10 k)) (hlt m n h)
      (hlt n m fun h' => h h'.symm) (cmp_compares m n)

theorem compareWritten_eq_eq_iff (m n : ℕ) : compareWritten m n = .eq ↔ m = n := by
  by_cases h : 10000 ≤ m ∧ 10000 ≤ n
  · rw [compareWritten_of_long h,(compares_cmp_chars _ _).eq_eq,toDigits_injective.eq_iff]
  · rw [compareWritten_of_short h,cmp_eq_eq_iff]

instance : Std.LawfulEqCmp compareWritten where
  compare_self := (compareWritten_eq_eq_iff _ _).mpr rfl
  eq_of_compare := (compareWritten_eq_eq_iff _ _).mp

theorem lt_iff_lt_iff_eq {o o' : Ordering} (h : o = .eq ↔ o' = .eq) :
    (o = .lt ↔ o' = .lt) ↔ o = o' := by
  cases o <;> cases o' <;> simp_all

theorem gt_iff_gt_iff_eq {o o' : Ordering} (h : o = .eq ↔ o' = .eq) :
    (o = .gt ↔ o' = .gt) ↔ o = o' := by
  cases o <;> cases o' <;> simp_all

theorem compareWritten_eq_lt_iff {m n : ℕ} (hm : 10000 ≤ m) (hn : 10000 ≤ n) :
    compareWritten m n = .lt ↔ Nat.toDigits 10 m < Nat.toDigits 10 n := by
  rw [compareWritten_of_long ⟨hm,hn⟩]
  exact (compares_cmp_chars _ _).eq_lt

theorem compareWritten_eq_cmp_iff (m n : ℕ) : compareWritten m n = cmp m n ↔ ¬ Misplaced m n := by
  by_cases h : 10000 ≤ m ∧ 10000 ≤ n
  · have hlt := compareWritten_eq_lt_iff h.1 h.2
    have heq : compareWritten m n = .eq ↔ cmp m n = .eq := by
      rw [compareWritten_eq_eq_iff,cmp_eq_eq_iff]
    have hwritten : ¬ Misplaced m n ↔ (compareWritten m n = .lt ↔ cmp m n = .lt) := by
      rw [Misplaced,hlt,cmp_eq_lt_iff]
      simp [h.1,h.2]
    rw [hwritten,lt_iff_lt_iff_eq heq]
  · rw [compareWritten_of_short h]
    exact iff_of_true rfl fun hmis => h ⟨hmis.1,hmis.2.1⟩

theorem not_misplaced_self (n : ℕ) : ¬ Misplaced n n := by simp [Misplaced]

theorem firstMisplaced_cons_self_iff (m : ℕ) (ms ns : List ℕ) :
    FirstMisplaced (m :: ms) (m :: ns) ↔ FirstMisplaced ms ns := by
  refine ⟨fun hfirst => ?_,.later⟩
  cases hfirst with
  | here h => exact absurd h (not_misplaced_self m)
  | later h => exact h

theorem firstMisplaced_cons_iff_of_ne {m n : ℕ} (hmn : m ≠ n) (ms ns : List ℕ) :
    FirstMisplaced (m :: ms) (n :: ns) ↔ Misplaced m n := by
  refine ⟨fun hfirst => ?_,.here⟩
  cases hfirst with
  | here h => exact h
  | later _ => exact absurd rfl hmn

theorem compareLex_eq_iff {ms ns : List ℕ} (h : ms.length = ns.length) :
    List.compareLex compareWritten ms ns = List.compareLex cmp ms ns ↔ ¬ FirstMisplaced ms ns := by
  induction ms generalizing ns with
  | nil =>
    cases ns with
    | nil => exact iff_of_true rfl (fun h => nomatch h)
    | cons n ns => cases h
  | cons m ms ih =>
    cases ns with
    | nil => cases h
    | cons n ns =>
      rw [List.compareLex_cons_cons,List.compareLex_cons_cons]
      by_cases hmn : m = n
      · subst hmn
        rw [(compareWritten_eq_eq_iff m m).mpr rfl,(cmp_eq_eq_iff m m).mpr rfl,
          firstMisplaced_cons_self_iff]
        exact ih (Nat.succ.inj h)
      · have hthen : ∀ o o' : Ordering, o ≠ .eq → o.then o' = o := by decide
        have hwritten : compareWritten m n ≠ .eq := fun he =>
          hmn ((compareWritten_eq_eq_iff m n).mp he)
        have hvalue : cmp m n ≠ .eq := fun he => hmn ((cmp_eq_eq_iff m n).mp he)
        rw [hthen _ _ hwritten,hthen _ _ hvalue,compareWritten_eq_cmp_iff,
          firstMisplaced_cons_iff_of_ne hmn]

/-! ### Padded texts -/

theorem dropLead_ofNumbers (ns : List ℕ) : dropLead (ofNumbers ns).toList =
    dotted (ns.map (Nat.toDigits 10)) := by
  rw [ofNumbers,String.toList_ofList]
  cases ns with
  | nil => rfl
  | cons n ns =>
    cases ns with
    | nil => simpa [dotted_singleton] using dropLead_toDigits_append n []
    | cons n' ns =>
      rw [List.map_cons,List.map_cons,dotted_cons_cons]
      exact dropLead_toDigits_append n _

/-- What is put behind three parts. -/
def mark (count : ℕ) : List (List Char) := if count = 3 then [['~']] else []

theorem normal_ofNumbers (ns : List ℕ) : normal (ofNumbers ns).toList =
    join (ns.map (fun n => pad (Nat.toDigits 10 n)) ++ mark ns.length) := by
  have hdigits : ∀ p ∈ ns.map (Nat.toDigits 10), Alphanumeric p := by
    intro p hp
    obtain ⟨n,-,rfl⟩ := List.mem_map.mp hp
    exact alphanumeric_toDigits n
  have hbuild : dropBuild (dotted (ns.map (Nat.toDigits 10))) =
      dotted (ns.map (Nat.toDigits 10)) := by
    simpa [dropBuild] using dropBuild_append (plus_not_mem_dotted hdigits) []
  rw [normal,dropLead_ofNumbers,hbuild,parts_dotted hdigits,mark]
  by_cases h : ns.length = 3
  · simp [h,Function.comp_def]
    rfl
  · simp [h,Function.comp_def]

theorem solid_of_mem (ns : List ℕ) (count : ℕ) :
    ∀ p ∈ ns.map (fun n => pad (Nat.toDigits 10 n)) ++ mark count, Solid p := by
  intro p hp
  rcases List.mem_append.mp hp with hp | hp
  · obtain ⟨n,-,rfl⟩ := List.mem_map.mp hp
    exact solid_pad_toDigits n
  · rw [mark] at hp
    split_ifs at hp
    · obtain rfl : p = ['~'] := List.mem_singleton.mp hp
      exact solid_mark
    · cases hp

theorem compares_padded {ms ns : List ℕ} (h : ms.length = ns.length) :
    (List.compareLex compareWritten ms ns).Compares
      (padded (ofNumbers ms)) (padded (ofNumbers ns)) := by
  have happend : ∀ {ps qs : List (List Char)}, ps.length = qs.length → ps < qs →
      ps ++ mark ns.length < qs ++ mark ns.length := by
    intro ps qs hlen hlt
    refine append_lt_append hlt fun e es he => ?_
    simp [he] at hlen
  rw [padded,padded,normal_ofNumbers,normal_ofNumbers,h]
  refine compares_ofList (compares_join (solid_of_mem ms _) (solid_of_mem ns _) ?_)
  exact compares_map (f := (· ++ mark ns.length)) (happend (by simp [h])) (happend (by simp [h]))
    (compares_compareLex compares_compareWritten ms ns)

/-- Equality is told by value. The other operators on two versions of as many numbers go by value
unless the first two numbers that differ are misplaced, and then they do not. -/
theorem numbers_compare_by_value_unless_misplaced {ms ns : List ℕ} (h : ms.length = ns.length) :
    (∀ r b, OperatorSays r ms ns b ↔ r.admits (List.compareLex compareWritten ms ns) = b) ∧
      (OperatorSays .same ms ns true ↔ ms = ns) ∧
      ((OperatorSays .below ms ns true ↔ ms < ns) ↔ ¬ FirstMisplaced ms ns) ∧
      ((OperatorSays .above ms ns true ↔ ns < ms) ↔ ¬ FirstMisplaced ms ns) := by
  have hanswer : ∀ r b, OperatorSays r ms ns b ↔
      r.admits (List.compareLex compareWritten ms ns) = b := by
    intro r b
    rw [OperatorSays,Condition.testSays_version_iff,
      VersionRelation.holds_eq_admits (compares_padded h)]
  have hvalue : (List.compareLex cmp ms ns).Compares ms ns := by
    have hmap := compares_compareLex (f := id) (cmp_compares (α := ℕ)) ms ns
    rw [List.map_id,List.map_id] at hmap
    exact hmap
  have hsame : List.compareLex compareWritten ms ns = .eq ↔ ms = ns :=
    Std.LawfulEqCmp.compare_eq_iff_eq
  have heq : List.compareLex compareWritten ms ns = .eq ↔ List.compareLex cmp ms ns = .eq :=
    hsame.trans hvalue.eq_eq.symm
  have hbelow : OperatorSays .below ms ns true ↔ List.compareLex compareWritten ms ns = .lt := by
    simp [hanswer,VersionRelation.admits]
  have habove : OperatorSays .above ms ns true ↔ List.compareLex compareWritten ms ns = .gt := by
    simp [hanswer,VersionRelation.admits]
  refine ⟨hanswer,?_,?_,?_⟩
  · rw [hanswer,← hsame]
    simp [VersionRelation.admits]
  · rw [hbelow,← hvalue.eq_lt,← compareLex_eq_iff h]
    exact lt_iff_lt_iff_eq heq
  · rw [habove,← hvalue.eq_gt,← compareLex_eq_iff h]
    exact gt_iff_gt_iff_eq heq

theorem minor_ten_is_above_minor_nine :
    [1,10,0].length = [1,9,0].length ∧ OperatorSays .above [1,10,0] [1,9,0] true := by
  have hlen : [1,10,0].length = [1,9,0].length := rfl
  have habove : List.compareLex compareWritten [1,10,0] [1,9,0] = .gt := by decide
  obtain ⟨hall,-⟩ := numbers_compare_by_value_unless_misplaced hlen
  refine ⟨hlen,(hall .above true).mpr ?_⟩
  rw [habove]
  rfl

/-- Six digits are not padded, and the first of them decides. -/
theorem hundred_thousand_is_below_its_predecessor :
    OperatorSays .below [100000] [99999] true ∧ ¬ [100000] < [99999] := by
  have hbelow : VersionRelation.below.holds (padded (ofNumbers [100000]))
      (padded (ofNumbers [99999])) = true := by decide +kernel
  exact ⟨(Condition.testSays_version_iff .below _ _ true).mpr hbelow,by decide⟩

end Version
end FlagEngine
