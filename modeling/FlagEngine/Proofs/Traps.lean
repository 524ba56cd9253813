import FlagEngine.Condition.Evaluation
import FlagEngine.Intake.Lenient
import FlagEngine.Proofs.Absence
import Mathlib.Tactic.Common

/-! Faults in condition documents. Reading a document ends in a fault just when it comes to an
operator whose argument springs a trap below the reader: a pattern with too many rounds, with two
alphabets or with an integer of too many digits, or such an integer as a version. So does a
rejection whose message would have to write an integer of too many digits, as a key or as the limit.
What comes before must be readable, for the first failure ends the reading; this is what the trapped
documents say, one case for each way down into a document. -/
namespace FlagEngine.Condition

/-- The reading ends in a fault. -/
def EndsIn {α : Type} (r : Except ConditionFailure α) (f : Fault) : Prop :=
  ∃ refused, r = .error ⟨.fault f,refused⟩

theorem not_endsIn_ok {α : Type} (x : α) (f : Fault) : ¬ EndsIn (.ok x) f := by
  rintro ⟨refused,h⟩
  cases h

theorem not_endsIn_reject {α : Type} (e : ConditionError) (f : Fault) :
    ¬ EndsIn (reject e : Except ConditionFailure α) f := by
  rintro ⟨refused,h⟩
  cases h

theorem endsIn_map_iff {α β : Type} (g : α → β) (r : Except ConditionFailure α) (f : Fault) :
    EndsIn (r.map g) f ↔ EndsIn r f := by
  cases r with
  | error e => simp [EndsIn,Except.map]
  | ok x => exact iff_of_false (not_endsIn_ok _ f) (not_endsIn_ok x f)

theorem endsIn_collect_cons_iff {α β : Type} (g : α → Except ConditionFailure β)
    (refused : β → List String) (x : α) (xs : List α) (f : Fault) :
    EndsIn (collect g refused (x :: xs)) f ↔
      EndsIn (g x) f ∨ (∃ y, g x = .ok y) ∧ EndsIn (collect g refused xs) f := by
  rw [collect]
  rcases g x with e | y
  · simp [EndsIn]
  · rcases collect g refused xs with ⟨cause,patterns⟩ | ys <;>
      simp [EndsIn,ConditionFailure.after]

/-- Reading members ends in a fault at the first that cannot be read, if it is by that fault. -/
theorem endsIn_collect_iff {α β : Type} (g : α → Except ConditionFailure β)
    (refused : β → List String) (xs : List α) (f : Fault) :
    EndsIn (collect g refused xs) f ↔
      ∃ us x vs, xs = us ++ x :: vs ∧ (∀ u ∈ us, ∃ y, g u = .ok y) ∧ EndsIn (g x) f := by
  induction xs with
  | nil =>
    refine iff_of_false (not_endsIn_ok [] f) ?_
    rintro ⟨us,x,vs,h,-⟩
    simp at h
  | cons x xs ih =>
    rw [endsIn_collect_cons_iff,ih]
    constructor
    · rintro (hx | ⟨hx,us,x',vs,rfl,hus,hx'⟩)
      · exact ⟨[],x,xs,rfl,by simp,hx⟩
      · exact ⟨x :: us,x',vs,rfl,List.forall_mem_cons.mpr ⟨hx,hus⟩,hx'⟩
    · rintro ⟨us,x',vs,hxs,hus,hx'⟩
      cases us with
      | nil =>
        obtain ⟨rfl,rfl⟩ := List.cons.inj hxs
        exact .inl hx'
      | cons u us =>
        obtain ⟨rfl,rfl⟩ := List.cons.inj hxs
        obtain ⟨hx,hus⟩ := List.forall_mem_cons.mp hus
        exact .inr ⟨hx,us,x',vs,rfl,hus,hx'⟩

/-- An integer that is too long to be written has to be written all the same. -/
def Unwritable (n : Int) (f : Fault) : Prop := Number.isOverlong n = true ∧ f = .overlongInteger

theorem endsIn_ofFault_iff {α : Type} (f g : Fault) :
    EndsIn (.error (.ofFault g) : Except ConditionFailure α) f ↔ g = f := by
  simp [EndsIn,ConditionFailure.ofFault]

theorem endsIn_rejectDepth_iff {α : Type} (limit : Int) (f : Fault) :
    EndsIn (rejectDepth limit : Except ConditionFailure α) f ↔ Unwritable limit f := by
  unfold rejectDepth Unwritable
  split
  · next h => simp [endsIn_ofFault_iff,h,eq_comm]
  · next h => exact iff_of_false (not_endsIn_reject _ f) fun hf => h hf.1

theorem endsIn_rejectPath_iff {α : Type} (key : Scalar) (f : Fault) :
    EndsIn (rejectPath key : Except ConditionFailure α) f ↔
      ∃ n, key = .int n ∧ Unwritable n f := by
  cases key with
  | int n =>
    by_cases h : Number.isOverlong n = true
    · simp [rejectPath,Value.isOverlong,endsIn_ofFault_iff,Unwritable,h,@eq_comm _ f]
    · have hreject : rejectPath (.int n) = (reject (.badPath (.int n)) : Except _ α) := if_neg h
      rw [hreject]
      refine iff_of_false (not_endsIn_reject _ f) ?_
      rintro ⟨m,hm,hlong,-⟩
      exact h (Scalar.int.inj hm ▸ hlong)
  | _ => exact iff_of_false (not_endsIn_reject _ f) (by simp)

/-- An operator and its argument that spring a fault below the reader. -/
inductive Trap : String → Value → Fault → Prop
  | tooManyTimes {text : String} (h : Pattern.read text = .error .tooManyTimes) :
    Trap "$regex" (.str text) .repetitionTooLarge
  | contradictory {text : String} (h : Pattern.read text = .error .contradictory) :
    Trap "$regex" (.str text) .contradictoryOptions
  | overlong {text : String} (h : Pattern.read text = .error .overlong) :
    Trap "$regex" (.str text) .overlongInteger
  | version {name : String} {n : Int} (h : (versionRelation? name).isSome = true)
    (hn : Number.isOverlong n = true) : Trap name (.int n) .overlongInteger

theorem endsIn_readPattern_iff (text : String) (f : Fault) :
    EndsIn (readPattern text) f ↔ Trap "$regex" (.str text) f := by
  constructor
  · intro h
    unfold readPattern at h
    rcases hread : Pattern.read text with (_ | _ | _ | _) | node <;> rw [hread] at h
    · exact (not_endsIn_ok _ f h).elim
    · obtain rfl := (endsIn_ofFault_iff f _).mp h
      exact .tooManyTimes hread
    · obtain rfl := (endsIn_ofFault_iff f _).mp h
      exact .contradictory hread
    · obtain rfl := (endsIn_ofFault_iff f _).mp h
      exact .overlong hread
    · exact (not_endsIn_ok _ f h).elim
  · intro h
    cases h with
    | tooManyTimes h => rw [readPattern,h]; exact ⟨[],rfl⟩
    | contradictory h => rw [readPattern,h]; exact ⟨[],rfl⟩
    | overlong h => rw [readPattern,h]; exact ⟨[],rfl⟩

theorem endsIn_readVersion_iff (r : VersionRelation) (v : Value) (f : Fault) :
    EndsIn (readVersion r v) f ↔
      f = .overlongInteger ∧ ∃ n, v = .int n ∧ Number.isOverlong n = true := by
  unfold readVersion Value.isOverlong
  split
  · next n =>
    by_cases hn : Number.isOverlong n = true
    · simp [hn,endsIn_ofFault_iff,@eq_comm _ f]
    · simp [hn,not_endsIn_ok]
  · next hno =>
    refine iff_of_false (not_endsIn_ok _ f) ?_
    rintro ⟨-,n,rfl,-⟩
    exact hno n rfl

theorem trap_of_versionRelation? {name : String} {r : VersionRelation} {v : Value} {f : Fault}
    (hr : versionRelation? name = some r) : EndsIn (readVersion r v) f ↔ Trap name v f := by
  rw [endsIn_readVersion_iff]
  constructor
  · rintro ⟨rfl,n,rfl,hn⟩
    exact .version (by rw [hr]; rfl) hn
  · intro h
    cases h with
    | version _ hn => exact ⟨rfl,_,rfl,hn⟩
    | _ => cases hr

theorem not_trap {name : String} (hname : name ≠ "$regex") (hno : versionRelation? name = none)
    (v : Value) (f : Fault) : ¬ Trap name v f := by
  intro h
  cases h with
  | version h _ => rw [hno] at h; cases h
  | _ => exact hname rfl

theorem endsIn_readPlain_iff (name : String) (v : Value) (f : Fault) :
    EndsIn (readPlain name v) f ↔ Trap name v f := by
  unfold readPlain
  split
  case h_5 =>
    split
    · exact endsIn_readPattern_iff _ f
    · next hno =>
      refine iff_of_false (not_endsIn_reject _ f) fun h => ?_
      cases h with
      | version h _ => cases h
      | _ => exact hno _ rfl
  case h_8 hregex _ _ =>
    split
    · next ho =>
      refine iff_of_false (not_endsIn_ok _ f) (not_trap hregex ?_ v f)
      rw [← name_of_orderTest? ho]
      cases ‹OrderTest› <;> rfl
    · split
      · next hr => exact trap_of_versionRelation? hr
      · next hr => exact iff_of_false (not_endsIn_reject _ f) (not_trap hregex hr v f)
  all_goals exact iff_of_false (not_endsIn_ok _ f) (not_trap (by decide) rfl v f)

/-- The combinators, as they go before each other. -/
def combinators : List String := ["$or","$nor","$and","$not"]

mutual
/-- A value whose reading as a test comes to a trap. -/
inductive TestTrapped (limit : Int) (f : Fault) : Nat → Value → Prop
  | tooDeep {v : Value} (h : Unwritable limit f) : TestTrapped limit f 0 v
  | operators {room : Nat} {us vs : Entries} {e : Scalar × Value}
    (operators : isOperators (.map (us ++ e :: vs)) = true)
    (before : ∀ u ∈ us, ∃ o, readEntry limit room u = .ok o) (h : EntryTrapped limit f room e) :
    TestTrapped limit f (room + 1) (.map (us ++ e :: vs))
inductive EntryTrapped (limit : Int) (f : Fault) : Nat → Scalar × Value → Prop
  | tooDeep {e : Scalar × Value} (h : Unwritable limit f) : EntryTrapped limit f 0 e
  | plain {room : Nat} {name : String} {v : Value} (h : Trap name v f) :
    EntryTrapped limit f (room + 1) (.str name,v)
  | not {room : Nat} {v : Value} (h : TestTrapped limit f room v) :
    EntryTrapped limit f (room + 1) (.str "$not",v)
  | size {room : Nat} {v : Value} (h : TestTrapped limit f room v) :
    EntryTrapped limit f (room + 1) (.str "$size",v)
  | every {room : Nat} {us vs : List Value} {x : Value}
    (before : ∀ u ∈ us, ∃ t, readTest limit room u = .ok t) (h : TestTrapped limit f room x) :
    EntryTrapped limit f (room + 1) (.str "$all",.list (us ++ x :: vs))
  | someValue {room : Nat} {v : Value} (operators : isOperators v = true)
    (h : TestTrapped limit f room v) : EntryTrapped limit f (room + 1) (.str "$elemMatch",v)
  | someItem {room : Nat} {v : Value} (operators : isOperators v = false)
    (h : DocumentTrapped limit f room v) : EntryTrapped limit f (room + 1) (.str "$elemMatch",v)
/-- A document whose reading comes to a trap. Of several combinators only the first is read. -/
inductive DocumentTrapped (limit : Int) (f : Fault) : Nat → Value → Prop
  | tooDeep {v : Value} (h : Unwritable limit f) : DocumentTrapped limit f 0 v
  | list {room : Nat} {es : Entries} {name : String} {us vs : List Value} {x : Value}
    (first : Intake.named? es combinators = some (name,.list (us ++ x :: vs)))
    (ne : name ≠ "$not") (before : ∀ u ∈ us, ∃ c, readDocument limit room u = .ok c)
    (h : DocumentTrapped limit f room x) : DocumentTrapped limit f (room + 1) (.map es)
  | not {room : Nat} {es : Entries} {v : Value}
    (first : Intake.named? es combinators = some ("$not",v)) (h : DocumentTrapped limit f room v) :
    DocumentTrapped limit f (room + 1) (.map es)
  | field {room : Nat} {us vs : Entries} {e : Scalar × Value}
    (first : Intake.named? (us ++ e :: vs) combinators = none)
    (before : ∀ u ∈ us, ∃ c, readField (readTest limit room) u = .ok c)
    (h : FieldTrapped limit f room e) : DocumentTrapped limit f (room + 1) (.map (us ++ e :: vs))
/-- A field whose test is trapped, or whose key cannot be written where it is rejected. -/
inductive FieldTrapped (limit : Int) (f : Fault) : Nat → Scalar × Value → Prop
  | test {room : Nat} {p : String} {v : Value} (named : p.isEmpty = false)
    (no_operator : isOperatorName p = false) (h : TestTrapped limit f room v) :
    FieldTrapped limit f room (.str p,v)
  | key {room : Nat} {n : Int} {v : Value} (h : Unwritable n f) : FieldTrapped limit f room (.int n,v)
end

section

variable {limit : Int} {f : Fault} {room : Nat}

theorem endsIn_readTest_succ_iff
    (ih : ∀ e, EndsIn (readEntry limit room e) f ↔ EntryTrapped limit f room e) (v : Value) :
    EndsIn (readTest limit (room + 1) v) f ↔ TestTrapped limit f (room + 1) v := by
  constructor
  · intro h
    unfold readTest at h
    split at h
    · split at h
      · next hoperators =>
        rw [endsIn_map_iff,endsIn_collect_iff] at h
        obtain ⟨us,e,vs,rfl,hus,he⟩ := h
        exact .operators hoperators hus ((ih e).mp he)
      · exact (not_endsIn_ok _ f h).elim
    · exact (not_endsIn_ok _ f h).elim
  · intro h
    cases h with
    | operators hoperators hus he =>
      rw [readTest,if_pos hoperators,endsIn_map_iff,endsIn_collect_iff]
      exact ⟨_,_,_,rfl,hus,(ih _).mpr he⟩

theorem endsIn_readEntry_succ_iff
    (ihTest : ∀ v, EndsIn (readTest limit room v) f ↔ TestTrapped limit f room v)
    (ihDocument : ∀ v, EndsIn (readDocument limit room v) f ↔ DocumentTrapped limit f room v)
    (e : Scalar × Value) :
    EndsIn (readEntry limit (room + 1) e) f ↔ EntryTrapped limit f (room + 1) e := by
  constructor
  · intro h
    obtain ⟨key,v⟩ := e
    unfold readEntry at h
    split at h
    · exact .not ((ihTest v).mp ((endsIn_map_iff _ _ f).mp h))
    · exact .size ((ihTest v).mp ((endsIn_map_iff _ _ f).mp h))
    · split at h
      · rw [endsIn_map_iff,endsIn_collect_iff] at h
        obtain ⟨us,x,vs,rfl,hus,hx⟩ := h
        exact .every hus ((ihTest x).mp hx)
      · exact (not_endsIn_ok _ f h).elim
    · split at h
      · next hoperators =>
        exact .someValue hoperators ((ihTest v).mp ((endsIn_map_iff _ _ f).mp h))
      · next hoperators =>
        exact .someItem (by simpa using hoperators)
          ((ihDocument v).mp ((endsIn_map_iff _ _ f).mp h))
    · exact .plain ((endsIn_readPlain_iff _ v f).mp h)
    · exact (not_endsIn_reject _ f h).elim
  · intro h
    cases h with
    | @plain _ name v h =>
      unfold readEntry
      split
      case h_5 hname =>
        obtain rfl := Scalar.str.inj hname
        exact (endsIn_readPlain_iff name v f).mpr h
      case h_6 hno => exact absurd rfl (hno name)
      -- No trap has the name of an operator whose argument is a test.
      all_goals
        next hname =>
        obtain rfl := Scalar.str.inj hname
        exact absurd h (not_trap (by decide) rfl v f)
    | not h => rw [readEntry,endsIn_map_iff]; exact (ihTest _).mpr h
    | size h => rw [readEntry,endsIn_map_iff]; exact (ihTest _).mpr h
    | every hus h =>
      rw [readEntry,endsIn_map_iff,endsIn_collect_iff]
      exact ⟨_,_,_,rfl,hus,(ihTest _).mpr h⟩
    | someValue hoperators h =>
      rw [readEntry,if_pos hoperators,endsIn_map_iff]
      exact (ihTest _).mpr h
    | someItem hoperators h =>
      rw [readEntry,if_neg (by simp [hoperators]),endsIn_map_iff]
      exact (ihDocument _).mpr h

theorem endsIn_readList_iff {g : Value → Except ConditionFailure Condition} (name : String)
    (v : Value) : EndsIn (readList g name v) f ↔
      ∃ us x vs, v = .list (us ++ x :: vs) ∧ (∀ u ∈ us, ∃ c, g u = .ok c) ∧ EndsIn (g x) f := by
  unfold readList
  split
  · rw [endsIn_collect_iff]
    simp only [Value.list.injEq]
  · next hno =>
    refine iff_of_false (not_endsIn_reject _ f) ?_
    rintro ⟨us,x,vs,rfl,-⟩
    exact hno _ rfl

theorem endsIn_readField_iff
    (ih : ∀ v, EndsIn (readTest limit room v) f ↔ TestTrapped limit f room v)
    (e : Scalar × Value) :
    EndsIn (readField (readTest limit room) e) f ↔ FieldTrapped limit f room e := by
  obtain ⟨key,v⟩ := e
  constructor
  · intro h
    unfold readField at h
    split at h
    · next hkey =>
      obtain rfl := hkey
      split at h
      · exact (not_endsIn_reject _ f h).elim
      · next hnamed =>
        split at h
        · exact (not_endsIn_reject _ f h).elim
        · next hoperator =>
          exact .test (by simpa using hnamed) (by simpa using hoperator)
            ((ih v).mp ((endsIn_map_iff _ _ f).mp h))
    · obtain ⟨n,rfl,hn⟩ := (endsIn_rejectPath_iff key f).mp h
      exact .key hn
  · intro h
    cases h with
    | test hnamed hoperator h =>
      unfold readField
      simp only [hnamed,hoperator,Bool.false_eq_true,if_false]
      exact (endsIn_map_iff _ _ f).mpr ((ih v).mpr h)
    | key h => exact (endsIn_rejectPath_iff _ f).mpr ⟨_,rfl,h⟩

theorem documentTrapped_of_list {es : Entries} {name : String} {v : Value}
    (first : Intake.named? es combinators = some (name,v)) (ne : name ≠ "$not") :
    DocumentTrapped limit f (room + 1) (.map es) ↔ ∃ us x vs, v = .list (us ++ x :: vs) ∧
      (∀ u ∈ us, ∃ c, readDocument limit room u = .ok c) ∧ DocumentTrapped limit f room x := by
  constructor
  · intro h
    cases h with
    | list first' _ before h =>
      obtain ⟨rfl,rfl⟩ := Prod.mk.inj (Option.some.inj (first.symm.trans first'))
      exact ⟨_,_,_,rfl,before,h⟩
    | not first' _ => exact absurd (Prod.mk.inj (Option.some.inj (first.symm.trans first'))).1 ne
    | field first' _ _ => cases first.symm.trans first'
  · rintro ⟨us,x,vs,rfl,before,h⟩
    exact .list first ne before h

theorem documentTrapped_of_not {es : Entries} {v : Value}
    (first : Intake.named? es combinators = some ("$not",v)) :
    DocumentTrapped limit f (room + 1) (.map es) ↔ DocumentTrapped limit f room v := by
  constructor
  · intro h
    cases h with
    | list first' ne _ _ =>
      exact absurd (Prod.mk.inj (Option.some.inj (first'.symm.trans first))).1 ne
    | not first' h =>
      obtain ⟨-,rfl⟩ := Prod.mk.inj (Option.some.inj (first.symm.trans first'))
      exact h
    | field first' _ _ => cases first.symm.trans first'
  · exact .not first

theorem documentTrapped_of_fields {es : Entries} (first : Intake.named? es combinators = none) :
    DocumentTrapped limit f (room + 1) (.map es) ↔ ∃ us e vs, es = us ++ e :: vs ∧
      (∀ u ∈ us, ∃ c, readField (readTest limit room) u = .ok c) ∧
        FieldTrapped limit f room e := by
  constructor
  · intro h
    cases h with
    | list first' _ _ _ => cases first.symm.trans first'
    | not first' _ => cases first.symm.trans first'
    | field _ before h => exact ⟨_,_,_,rfl,before,h⟩
  · rintro ⟨us,e,vs,rfl,before,h⟩
    exact .field first before h

theorem endsIn_readDocument_succ_iff
    (ihTest : ∀ v, EndsIn (readTest limit room v) f ↔ TestTrapped limit f room v)
    (ihDocument : ∀ v, EndsIn (readDocument limit room v) f ↔ DocumentTrapped limit f room v)
    (v : Value) :
    EndsIn (readDocument limit (room + 1) v) f ↔ DocumentTrapped limit f (room + 1) v := by
  unfold readDocument
  split
  · next es =>
    rcases hor : Entries.find? es (.str "$or") with _ | v
    · rcases hnor : Entries.find? es (.str "$nor") with _ | v
      · rcases hand : Entries.find? es (.str "$and") with _ | v
        · rcases hnot : Entries.find? es (.str "$not") with _ | v
          · have first : Intake.named? es combinators = none := by
              simp [Intake.named?,combinators,hor,hnor,hand,hnot]
            rw [documentTrapped_of_fields first,endsIn_map_iff,endsIn_collect_iff]
            simp only [endsIn_readField_iff ihTest]
          · have first : Intake.named? es combinators = some ("$not",v) := by
              simp [Intake.named?,combinators,hor,hnor,hand,hnot]
            rw [documentTrapped_of_not first,endsIn_map_iff,ihDocument]
        · have first : Intake.named? es combinators = some ("$and",v) := by
            simp [Intake.named?,combinators,hor,hnor,hand]
          rw [documentTrapped_of_list first (by decide),endsIn_map_iff,endsIn_readList_iff]
          simp only [ihDocument]
      · have first : Intake.named? es combinators = some ("$nor",v) := by
          simp [Intake.named?,combinators,hor,hnor]
        rw [documentTrapped_of_list first (by decide),endsIn_map_iff,endsIn_readList_iff]
        simp only [ihDocument]
    · have first : Intake.named? es combinators = some ("$or",v) := by
        simp [Intake.named?,combinators,hor]
      rw [documentTrapped_of_list first (by decide),endsIn_map_iff,endsIn_readList_iff]
      simp only [ihDocument]
  · next hno =>
    refine iff_of_false (not_endsIn_reject _ f) fun h => ?_
    cases h <;> exact hno _ rfl

end

/-- Reading ends in a fault just when it comes to a trap. -/
theorem endsIn_iff_trapped (limit : Int) (f : Fault) (room : Nat) :
    (∀ v, EndsIn (readTest limit room v) f ↔ TestTrapped limit f room v) ∧
      (∀ e, EndsIn (readEntry limit room e) f ↔ EntryTrapped limit f room e) ∧
        ∀ v, EndsIn (readDocument limit room v) f ↔ DocumentTrapped limit f room v := by
  induction room with
  | zero =>
    refine ⟨fun v => ?_,fun e => ?_,fun v => ?_⟩
    · rw [readTest,endsIn_rejectDepth_iff]
      refine ⟨.tooDeep,fun h => ?_⟩
      cases h with
      | tooDeep h => exact h
    · rw [readEntry,endsIn_rejectDepth_iff]
      refine ⟨.tooDeep,fun h => ?_⟩
      cases h with
      | tooDeep h => exact h
    · rw [readDocument,endsIn_rejectDepth_iff]
      refine ⟨.tooDeep,fun h => ?_⟩
      cases h with
      | tooDeep h => exact h
  | succ room ih =>
    obtain ⟨ihTest,ihEntry,ihDocument⟩ := ih
    exact ⟨endsIn_readTest_succ_iff ihEntry,endsIn_readEntry_succ_iff ihTest ihDocument,
      endsIn_readDocument_succ_iff ihTest ihDocument⟩

/-- A document whose reading as a condition comes to a trap. -/
def Trapped (document : Value) (limit : Int) (f : Fault) : Prop :=
  DocumentTrapped limit f (limit + 1).toNat document

theorem endsIn_read_iff (document : Value) (limit : Int) (f : Fault) :
    EndsIn (read document limit) f ↔ Trapped document limit f :=
  (endsIn_iff_trapped limit f (limit + 1).toNat).2.2 document

/-- Testing a document gives a truth value, unless the document is trapped, or the attributes make
the condition that it is stumble. -/
theorem evaluate_eq_error_iff (document : Value) (limit : Int) (a : Value) (f : Fault) :
    (evaluate document limit a).1 = .error f ↔ Trapped document limit f ∨
      f = .overlongInteger ∧ ∃ c, read document limit = .ok c ∧ c.stumbles a = true := by
  rw [← endsIn_read_iff]
  unfold evaluate
  rcases read document limit with ⟨e | g,refused⟩ | c
  · simp [EndsIn]
  · simp [EndsIn]
  · cases hc : c.stumbles a <;> simp [EndsIn,test,hc,@eq_comm _ f]

end FlagEngine.Condition
