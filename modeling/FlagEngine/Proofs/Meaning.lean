import FlagEngine.Proofs.Answers
import FlagEngine.Proofs.Stumbling

/-! What documents mean. With room enough a document is read the same at every depth limit, so that
it says one thing of attributes or is no condition at all. `Compositional` lists how what it says is
put together: combinators of what their documents say, fields and operators of what each of them
says, and tests of items of what the items meet. -/
namespace FlagEngine.Condition

section Room

variable {α β : Type}

theorem collect_of_imp {f g : α → Except ConditionFailure β} {refused : β → List String}
    {xs : List α} {ys : List β} (h : collect f refused xs = .ok ys)
    (hfg : ∀ x y, f x = .ok y → g x = .ok y) : collect g refused xs = .ok ys :=
  collect_eq_ok_iff.mpr ((collect_eq_ok_iff.mp h).imp hfg)

theorem map_of_imp {r r' : Except ConditionFailure α} {g : α → β} {y : β} (h : r.map g = .ok y)
    (hr : ∀ x, r = .ok x → r' = .ok x) : r'.map g = .ok y := by
  obtain ⟨x,hx,rfl⟩ := exists_of_map_eq_ok h
  rw [hr x hx]
  rfl

theorem readList_of_imp {f g : Value → Except ConditionFailure Condition} {name : String}
    {v : Value} {cs : List Condition} (h : readList f name v = .ok cs)
    (hfg : ∀ x c, f x = .ok c → g x = .ok c) : readList g name v = .ok cs := by
  unfold readList at h ⊢
  split at h
  · exact collect_of_imp h hfg
  · cases h

theorem readCombinator_of_imp {f g : Value → Except ConditionFailure Condition} {name : String}
    {v : Value} {c : Condition} (h : readCombinator f name v = .ok c)
    (hfg : ∀ x c, f x = .ok c → g x = .ok c) : readCombinator g name v = .ok c := by
  unfold readCombinator at h ⊢
  split_ifs at h ⊢
  · exact map_of_imp h fun cs hcs => readList_of_imp hcs hfg
  · exact map_of_imp h fun cs hcs => readList_of_imp hcs hfg
  · exact map_of_imp h fun cs hcs => readList_of_imp hcs hfg
  · exact map_of_imp h (hfg v)

theorem readField_of_imp {f g : Value → Except ConditionFailure ValueTest} {e : Scalar × Value}
    {c : Condition} (h : readField f e = .ok c) (hfg : ∀ v t, f v = .ok t → g v = .ok t) :
    readField g e = .ok c := by
  unfold readField at h ⊢
  split at h
  · split_ifs at h ⊢
    · exact h
    · exact h
    · exact map_of_imp h (hfg e.2)
  · exact absurd h (rejectPath_ne_ok _ c)

variable {limit limit' : Int} {room room' : Nat}

theorem readTest_succ_of_imp (hEntry : ∀ e o, readEntry limit room e = .ok o →
    readEntry limit' room' e = .ok o) {v : Value} {t : ValueTest}
    (h : readTest limit (room + 1) v = .ok t) : readTest limit' (room' + 1) v = .ok t := by
  unfold readTest at h ⊢
  split at h
  · split_ifs at h ⊢
    · exact map_of_imp h fun os hos => collect_of_imp hos hEntry
    · exact h
  · exact h

theorem readEntry_succ_of_imp
    (hTest : ∀ v t, readTest limit room v = .ok t → readTest limit' room' v = .ok t)
    (hDocument : ∀ v c, readDocument limit room v = .ok c → readDocument limit' room' v = .ok c)
    {e : Scalar × Value} {o : Operator} (h : readEntry limit (room + 1) e = .ok o) :
    readEntry limit' (room' + 1) e = .ok o := by
  obtain ⟨key,v⟩ := e
  by_cases hkey : ∃ name, key = .str name
  · obtain ⟨name,rfl⟩ := hkey
    rw [readEntry_str] at h ⊢
    split_ifs at h ⊢
    · exact map_of_imp h (hTest v)
    · exact map_of_imp h (hTest v)
    · unfold readEvery at h ⊢
      split at h
      · exact map_of_imp h fun ts hts => collect_of_imp hts hTest
      · exact h
    · exact map_of_imp h (hTest v)
    · exact map_of_imp h (hDocument v)
    · exact h
  · rw [readEntry_of_no_name fun name hname => hkey ⟨name,hname⟩] at h
    cases h

theorem readDocument_succ_of_imp
    (hTest : ∀ v t, readTest limit room v = .ok t → readTest limit' room' v = .ok t)
    (hDocument : ∀ v c, readDocument limit room v = .ok c → readDocument limit' room' v = .ok c)
    {v : Value} {c : Condition} (h : readDocument limit (room + 1) v = .ok c) :
    readDocument limit' (room' + 1) v = .ok c := by
  cases v with
  | map es =>
    rw [readDocument_map] at h ⊢
    rcases hfirst : Intake.named? es combinators with _ | ⟨name,v⟩ <;>
      simp only [hfirst] at h ⊢
    · exact map_of_imp h fun cs hcs => collect_of_imp hcs fun e c he => readField_of_imp he hTest
    · exact readCombinator_of_imp h hDocument
  | _ => cases h

/-- What is read in some room is read in more. -/
theorem read_of_room_le (hle : room ≤ room') :
    (∀ v t, readTest limit room v = .ok t → readTest limit' room' v = .ok t) ∧
      (∀ e o, readEntry limit room e = .ok o → readEntry limit' room' e = .ok o) ∧
        ∀ v c, readDocument limit room v = .ok c → readDocument limit' room' v = .ok c := by
  induction room generalizing room' with
  | zero =>
    refine ⟨fun v t h => ?_,fun e o h => ?_,fun v c h => ?_⟩
    · exact absurd h (rejectDepth_ne_ok limit t)
    · exact absurd h (rejectDepth_ne_ok limit o)
    · exact absurd h (rejectDepth_ne_ok limit c)
  | succ room ih =>
    obtain ⟨room',rfl⟩ : ∃ r, room' = r + 1 := ⟨room' - 1,by omega⟩
    obtain ⟨hTest,hEntry,hDocument⟩ := ih (Nat.le_of_succ_le_succ hle)
    exact ⟨fun v t => readTest_succ_of_imp hEntry,fun e o => readEntry_succ_of_imp hTest hDocument,
      fun v c => readDocument_succ_of_imp hTest hDocument⟩

end Room

section Yields

variable {α β γ : Type}

/-- A reading that finds the same in more room. -/
def Steady (F : Nat → α → Except ConditionFailure β) : Prop :=
  ∀ (room room' : Nat) (x : α) (y : β), room ≤ room' → F room x = .ok y → F room' x = .ok y

/-- With room enough the reading succeeds, and what was read gives an answer. -/
def Yields (F : Nat → α → Except ConditionFailure β) (ask : β → Bool) (x : α) (b : Bool) : Prop :=
  ∃ room, Answers (F room x) ask b

theorem steady_readTest : Steady (readTest 0) :=
  fun _ _ _ _ hle => (read_of_room_le hle).1 _ _

theorem steady_readEntry : Steady (readEntry 0) :=
  fun _ _ _ _ hle => (read_of_room_le hle).2.1 _ _

theorem steady_readDocument : Steady (readDocument 0) :=
  fun _ _ _ _ hle => (read_of_room_le hle).2.2 _ _

theorem steady_readField : Steady fun room => readField (readTest 0 room) :=
  fun _ _ _ _ hle h => readField_of_imp h (read_of_room_le hle).1

variable {F : Nat → α → Except ConditionFailure β}

theorem exists_yields_iff (ask : β → Bool) (x : α) :
    (∃ b, Yields F ask x b) ↔ ∃ room y, F room x = .ok y := by
  constructor
  · rintro ⟨b,room,y,hy,-⟩
    exact ⟨room,y,hy⟩
  · rintro ⟨room,y,hy⟩
    exact ⟨ask y,room,y,hy,rfl⟩

theorem yields_iff_of_reads (hF : Steady F) {room : Nat} {x : α} {y : β} (h : F room x = .ok y)
    (ask : β → Bool) (b : Bool) : Yields F ask x b ↔ ask y = b := by
  constructor
  · rintro ⟨room',y',hy',rfl⟩
    have hy : F (max room room') x = .ok y := hF _ _ _ _ (Nat.le_max_left _ _) h
    have hsame : Except.ok y = Except.ok y' := hy.symm.trans (hF _ _ _ _ (Nat.le_max_right _ _) hy')
    rw [Except.ok.inj hsame]
  · exact fun hb => ⟨room,y,h,hb⟩

theorem yields_iff (hF : Steady F) (ask : β → Bool) (x : α) (b : Bool) :
    Yields F ask x b ↔ (∃ room y, F room x = .ok y) ∧ (b = true ↔ Yields F ask x true) := by
  by_cases hreads : ∃ room y, F room x = .ok y
  · obtain ⟨room,y,hy⟩ := hreads
    have hyields := yields_iff_of_reads hF hy ask
    rw [hyields,hyields]
    cases b <;> simp [show ∃ room y, F room x = .ok y from ⟨room,y,hy⟩]
  · refine iff_of_false (fun h => hreads ?_) fun h => hreads h.1
    exact (exists_yields_iff ask x).mp ⟨b,h⟩

theorem yields_any_iff (ask : β → γ → Bool) (vs : List γ) (x : α) :
    Yields F (fun y => vs.any (ask y)) x true ↔ ∃ v ∈ vs, Yields F (ask · v) x true := by
  simp only [Yields,answers_any_iff]
  constructor
  · rintro ⟨room,v,hv,h⟩
    exact ⟨v,hv,room,h⟩
  · rintro ⟨v,hv,room,h⟩
    exact ⟨room,v,hv,h⟩

/-- Members that are readable each are readable in one room. -/
theorem exists_room_of_reads (hF : Steady F) {xs : List α}
    (h : ∀ x ∈ xs, ∃ room y, F room x = .ok y) : ∃ room, ∀ x ∈ xs, ∃ y, F room x = .ok y := by
  induction xs with
  | nil => exact ⟨0,by simp⟩
  | cons x xs ih =>
    obtain ⟨⟨room,y,hy⟩,hxs⟩ := List.forall_mem_cons.mp h
    obtain ⟨room',hroom'⟩ := ih hxs
    refine ⟨max room room',List.forall_mem_cons.mpr ⟨⟨y,hF _ _ _ _ (Nat.le_max_left _ _) hy⟩,fun u hu => ?_⟩⟩
    obtain ⟨z,hz⟩ := hroom' u hu
    exact ⟨z,hF _ _ _ _ (Nat.le_max_right _ _) hz⟩

/-- In room enough for all members, what they answer is what they yield. -/
theorem exists_room_iff (hF : Steady F) {xs : List α} (ask : β → Bool) {Q : (α → Prop) → Prop}
    (hQ : ∀ {P P' : α → Prop}, (∀ x ∈ xs, P x ↔ P' x) → (Q P ↔ Q P')) (b : Bool) :
    (∃ room, (∀ x ∈ xs, ∃ y, F room x = .ok y) ∧
        (b = true ↔ Q fun x => Answers (F room x) ask true)) ↔
      (∀ x ∈ xs, ∃ room y, F room x = .ok y) ∧ (b = true ↔ Q fun x => Yields F ask x true) := by
  have hsame : ∀ {room}, (∀ x ∈ xs, ∃ y, F room x = .ok y) →
      (Q (fun x => Answers (F room x) ask true) ↔ Q fun x => Yields F ask x true) := by
    refine fun hreads => hQ fun x hx => ?_
    obtain ⟨y,hy⟩ := hreads x hx
    rw [yields_iff_of_reads hF hy,hy,answers_ok_iff]
  constructor
  · rintro ⟨room,hreads,hb⟩
    exact ⟨fun x hx => ⟨room,hreads x hx⟩,hb.trans (hsame hreads)⟩
  · rintro ⟨hreads,hb⟩
    obtain ⟨room,hroom⟩ := exists_room_of_reads hF hreads
    exact ⟨room,hroom,hb.trans (hsame hroom).symm⟩

theorem yields_succ_iff (h : ∀ y, F 0 x ≠ .ok y) (ask : β → Bool) (b : Bool) :
    Yields F ask x b ↔ ∃ room, Answers (F (room + 1) x) ask b := by
  constructor
  · rintro ⟨_ | room,y,hy,hb⟩
    · exact absurd hy (h y)
    · exact ⟨room,y,hy,hb⟩
  · rintro ⟨room,hroom⟩
    exact ⟨room + 1,hroom⟩

end Yields

/-- What a document says of attributes, read at some depth limit. -/
def Says (d a : Value) (b : Bool) : Prop := ∃ limit, Answers (read d limit) (·.holds a) b

def Readable (d : Value) : Prop := ∃ limit c, read d limit = .ok c

/-- What a value says of the value of a field, if there is one, when it is read as a test. -/
def TestSays (w : Value) (v? : Option Value) (b : Bool) : Prop :=
  ∃ limit room, Answers (readTest limit room w) (·.holds v?) b

theorem says_iff_yields (d a : Value) (b : Bool) :
    Says d a b ↔ Yields (readDocument 0) (·.holds a) d b := by
  constructor
  · rintro ⟨limit,c,hc,hb⟩
    exact ⟨_,c,(read_of_room_le (Nat.le_refl _)).2.2 d c hc,hb⟩
  · rintro ⟨room,c,hc,hb⟩
    have hroom : room ≤ ((room : Int) - 1 + 1).toNat := by omega
    exact ⟨room - 1,c,(read_of_room_le hroom).2.2 d c hc,hb⟩

theorem testSays_iff_yields (w : Value) (v? : Option Value) (b : Bool) :
    TestSays w v? b ↔ Yields (readTest 0) (·.holds v?) w b := by
  constructor
  · rintro ⟨limit,room,t,ht,hb⟩
    exact ⟨room,t,(read_of_room_le (Nat.le_refl _)).1 w t ht,hb⟩
  · exact fun h => ⟨0,h⟩

/-- At any depth limit at which it is read, a document says what it says. -/
theorem says_of_read {d : Value} {limit : Int} {c : Condition} (h : read d limit = .ok c)
    (a : Value) (b : Bool) : Says d a b ↔ c.holds a = b := by
  have hc : readDocument 0 (limit + 1).toNat d = .ok c :=
    (read_of_room_le (Nat.le_refl _)).2.2 d c h
  rw [says_iff_yields,yields_iff_of_reads steady_readDocument hc]

/-- A document is readable just when it says something, of whatever attributes. -/
theorem readable_iff (d a : Value) : Readable d ↔ ∃ b, Says d a b := by
  constructor
  · rintro ⟨limit,c,hc⟩
    exact ⟨c.holds a,limit,c,hc,rfl⟩
  · rintro ⟨b,limit,c,hc,-⟩
    exact ⟨limit,c,hc⟩

theorem readable_iff_reads (d : Value) : Readable d ↔ ∃ room c, readDocument 0 room d = .ok c := by
  rw [readable_iff d .null,← exists_yields_iff (·.holds .null) d]
  simp only [says_iff_yields]

theorem says_map_iff (es : Entries) (a : Value) (b : Bool) :
    Says (.map es) a b ↔ ∃ room, Answers (readDocument 0 (room + 1) (.map es)) (·.holds a) b := by
  rw [says_iff_yields]
  exact yields_succ_iff (rejectDepth_ne_ok 0) _ b

/-! ### Combinators -/

theorem says_combinator_iff {name : String} (h : name ∈ combinators) (v a : Value) (b : Bool) :
    Says (.obj [(name,v)]) a b ↔
      ∃ room, Answers (readCombinator (readDocument 0 room) name v) (·.holds a) b := by
  change Says (.map [(.str name,v)]) a b ↔ _
  rw [says_map_iff]
  refine exists_congr fun room => ?_
  rw [readDocument_map,Intake.named?_obj_of_mem h]

theorem says_not_iff (d a : Value) (b : Bool) : Says (.obj [("$not",d)]) a b ↔ Says d a (!b) := by
  rw [says_combinator_iff (by decide),says_iff_yields]
  refine exists_congr fun room => ?_
  have hread : readCombinator (readDocument 0 room) "$not" d =
      (readDocument 0 room d).map .not := rfl
  rw [hread,answers_map_iff]
  simp only [Condition.holds]
  exact answers_not_iff _ _ b

theorem says_and_iff (ds : List Value) (a : Value) (b : Bool) :
    Says (.obj [("$and",.list ds)]) a b ↔
      (∀ d ∈ ds, Readable d) ∧ (b = true ↔ ∀ d ∈ ds, Says d a true) := by
  have hroom : ∀ room, Answers (readCombinator (readDocument 0 room) "$and" (.list ds))
      (·.holds a) b ↔ (∀ d ∈ ds, ∃ c, readDocument 0 room d = .ok c) ∧
        (b = true ↔ ∀ d ∈ ds, Answers (readDocument 0 room d) (·.holds a) true) := by
    intro room
    have hread : readCombinator (readDocument 0 room) "$and" (.list ds) =
        (collect (readDocument 0 room) Condition.refused ds).map .allOf := rfl
    rw [hread,answers_map_iff]
    simp only [Condition.holds,allHold_eq_all]
    exact answers_collect_all_iff ds _ b
  rw [says_combinator_iff (by decide),exists_congr hroom]
  simp only [says_iff_yields,readable_iff_reads]
  exact exists_room_iff steady_readDocument _ (fun hP => forall₂_congr hP) b

theorem says_or_iff (ds : List Value) (a : Value) (b : Bool) :
    Says (.obj [("$or",.list ds)]) a b ↔ (∀ d ∈ ds, Readable d) ∧
      (b = true ↔ ds = [] ∨ ∃ d ∈ ds, Says d a true) := by
  have hroom : ∀ room, Answers (readCombinator (readDocument 0 room) "$or" (.list ds))
      (·.holds a) b ↔ (∀ d ∈ ds, ∃ c, readDocument 0 room d = .ok c) ∧
        (b = true ↔ ds = [] ∨ ∃ d ∈ ds, Answers (readDocument 0 room d) (·.holds a) true) := by
    intro room
    have hread : readCombinator (readDocument 0 room) "$or" (.list ds) =
        (collect (readDocument 0 room) Condition.refused ds).map .anyOf := rfl
    rw [hread,answers_map_iff]
    simp only [Condition.holds,anyHolds_eq_any]
    exact answers_collect_any_iff ds _ b
  rw [says_combinator_iff (by decide),exists_congr hroom]
  simp only [says_iff_yields,readable_iff_reads]
  exact exists_room_iff steady_readDocument _ (fun {P P'} hP => or_congr_right
    (exists_congr fun d => and_congr_right fun hd => hP d hd : (∃ d ∈ ds, P d) ↔ ∃ d ∈ ds, P' d)) b

/-- None of the documents holds. Over no documents that is false, for their disjunction is true. -/
theorem says_nor_iff (ds : List Value) (a : Value) (b : Bool) :
    Says (.obj [("$nor",.list ds)]) a b ↔ Says (.obj [("$or",.list ds)]) a (!b) := by
  rw [says_combinator_iff (by decide),says_combinator_iff (by decide)]
  refine exists_congr fun room => ?_
  have hnor : readCombinator (readDocument 0 room) "$nor" (.list ds) =
      (collect (readDocument 0 room) Condition.refused ds).map (.not ∘ .anyOf) := rfl
  have hor : readCombinator (readDocument 0 room) "$or" (.list ds) =
      (collect (readDocument 0 room) Condition.refused ds).map .anyOf := rfl
  rw [hnor,hor,answers_map_iff,answers_map_iff]
  simp only [Function.comp,Condition.holds]
  exact answers_not_iff _ _ b

/-- Beside the first combinator nothing is read. -/
theorem read_of_first {es : Entries} {name : String} {v : Value}
    (h : Intake.named? es combinators = some (name,v)) (limit : Int) :
    read (.map es) limit = read (.obj [(name,v)]) limit := by
  unfold read
  rcases (limit + 1).toNat with _ | room
  · rw [readDocument,readDocument]
  · show readDocument limit (room + 1) (.map es) =
      readDocument limit (room + 1) (.map [(.str name,v)])
    rw [readDocument_map,readDocument_map,h,Intake.named?_obj_of_mem (Intake.mem_of_named? h)]

/-! ### Fields -/

theorem says_fields_iff {es : Entries} (h : Intake.named? es combinators = none) (a : Value)
    (b : Bool) : Says (.map es) a b ↔
      (∀ e ∈ es, ∃ room c, readField (readTest 0 room) e = .ok c) ∧ (b = true ↔
        ∀ e ∈ es, Yields (fun room => readField (readTest 0 room)) (·.holds a) e true) := by
  rw [says_map_iff]
  simp only [answers_fields_iff h]
  exact exists_room_iff steady_readField _ (fun hP => forall₂_congr hP) b

theorem says_singleton_iff {e : Scalar × Value} (h : Intake.named? [e] combinators = none)
    (a : Value) (b : Bool) : Says (.map [e]) a b ↔
      Yields (fun room => readField (readTest 0 room)) (·.holds a) e b := by
  rw [says_map_iff]
  refine exists_congr fun room => ?_
  rw [answers_fields_iff h,answers_iff (readField (readTest 0 room) e)]
  simp

/-- A document of fields is the conjunction of the documents of one field each. -/
theorem says_fields_iff_singletons {es : Entries} (h : Intake.named? es combinators = none)
    (a : Value) (b : Bool) : Says (.map es) a b ↔
      (∀ e ∈ es, Readable (.map [e])) ∧ (b = true ↔ ∀ e ∈ es, Says (.map [e]) a true) := by
  have hone : ∀ e ∈ es, ∀ b, Says (.map [e]) a b ↔
      Yields (fun room => readField (readTest 0 room)) (·.holds a) e b :=
    fun e he => says_singleton_iff (Intake.named?_singleton_of_mem h he) a
  rw [says_fields_iff h]
  refine and_congr (forall₂_congr fun e he => ?_) (iff_congr Iff.rfl (forall₂_congr fun e he => ?_))
  · rw [readable_iff _ a,← exists_yields_iff (·.holds a) e]
    exact exists_congr fun b => (hone e he b).symm
  · exact (hone e he true).symm

/-- A key that names a field. -/
def IsPath (p : String) : Prop := p.isEmpty = false ∧ isOperatorName p = false

theorem IsPath.not_mem_combinators {p : String} (hp : IsPath p) : p ∉ combinators := by
  intro h
  have hname : isOperatorName p = true := by
    simp only [combinators,List.mem_cons,List.not_mem_nil,or_false] at h
    rcases h with rfl | rfl | rfl | rfl <;> rfl
  rw [hp.2] at hname
  cases hname

/-- A field answers by what its test says of the value at its path. -/
theorem says_field_iff {p : String} (hp : IsPath p) (w a : Value) (b : Bool) :
    Says (.obj [(p,w)]) a b ↔ TestSays w (a.lookup (pathOf p)) b := by
  change Says (.map [(.str p,w)]) a b ↔ _
  rw [says_singleton_iff (Intake.named?_obj_of_not_mem hp.not_mem_combinators w),testSays_iff_yields]
  refine exists_congr fun room => ?_
  have hread : readField (readTest 0 room) (.str p,w) = (readTest 0 room w).map
      (.field (String.ofList (segments p.toList).1) ((segments p.toList).2.map String.ofList)) := by
    simp only [readField,hp.1,hp.2,Bool.false_eq_true,if_false]
  dsimp only
  rw [hread,answers_map_iff]
  simp only [Condition.holds]
  rfl

/-! ### Operators -/

theorem testSays_map_iff (es : Entries) (v? : Option Value) (b : Bool) :
    TestSays (.map es) v? b ↔
      ∃ room, Answers (readTest 0 (room + 1) (.map es)) (·.holds v?) b := by
  rw [testSays_iff_yields]
  exact yields_succ_iff (rejectDepth_ne_ok 0) _ b

theorem testSays_operators_iff {es : Entries} (h : isOperators (.map es) = true)
    (v? : Option Value) (b : Bool) : TestSays (.map es) v? b ↔
      (∀ e ∈ es, ∃ room o, readEntry 0 room e = .ok o) ∧
        (b = true ↔ ∀ e ∈ es, Yields (readEntry 0) (·.holds v?) e true) := by
  rw [testSays_map_iff]
  simp only [answers_operators_iff h]
  exact exists_room_iff steady_readEntry _ (fun hP => forall₂_congr hP) b

theorem testSays_operator_iff {e : Scalar × Value} (h : isOperatorKey e.1 = true)
    (v? : Option Value) (b : Bool) :
    TestSays (.map [e]) v? b ↔ Yields (readEntry 0) (·.holds v?) e b := by
  have hone : isOperators (.map [e]) = true := by simp [isOperators,h]
  rw [testSays_map_iff]
  refine exists_congr fun room => ?_
  rw [answers_operators_iff hone,answers_iff (readEntry 0 room e)]
  simp

/-- A field with several operators is the conjunction of the fields with one of them each. -/
theorem says_operators_iff {p : String} (hp : IsPath p) {es : Entries}
    (h : isOperators (.map es) = true) (a : Value) (b : Bool) :
    Says (.obj [(p,.map es)]) a b ↔ (∀ e ∈ es, Readable (.obj [(p,.map [e])])) ∧
      (b = true ↔ ∀ e ∈ es, Says (.obj [(p,.map [e])]) a true) := by
  have hone : ∀ e ∈ es, ∀ b, Says (.obj [(p,.map [e])]) a b ↔
      Yields (readEntry 0) (·.holds (a.lookup (pathOf p))) e b := fun e he b =>
    (says_field_iff hp _ a b).trans (testSays_operator_iff (List.all_eq_true.mp h e he) _ b)
  rw [says_field_iff hp,testSays_operators_iff h]
  refine and_congr (forall₂_congr fun e he => ?_) (iff_congr Iff.rfl (forall₂_congr fun e he => ?_))
  · rw [readable_iff _ a,← exists_yields_iff (·.holds (a.lookup (pathOf p))) e]
    exact exists_congr fun b => (hone e he b).symm
  · exact (hone e he true).symm

theorem readable_field_iff {p : String} (hp : IsPath p) (w : Value) :
    Readable (.obj [(p,w)]) ↔ ∃ room t, readTest 0 room w = .ok t := by
  rw [readable_iff _ .null,← exists_yields_iff (·.holds (Value.null.lookup (pathOf p))) w]
  simp only [says_field_iff hp,testSays_iff_yields]

section Present

variable {p name : String} {a v : Value}

/-- A field with one operator answers by that operator. -/
theorem says_operator_iff (hp : IsPath p) (hname : isOperatorKey (.str name) = true)
    (hv : a.lookup (pathOf p) = some v) (w : Value) (b : Bool) :
    Says (.obj [(p,.obj [(name,w)])]) a b ↔
      ∃ room, Answers (readEntry 0 (room + 1) (.str name,w)) (·.holds (some v)) b := by
  have hone : TestSays (.map [(.str name,w)]) (some v) b ↔
      Yields (readEntry 0) (·.holds (some v)) (.str name,w) b := testSays_operator_iff hname _ b
  rw [says_field_iff hp,hv]
  exact hone.trans (yields_succ_iff (fun o h => by rw [readEntry] at h; cases h) _ b)

theorem says_not_test_iff (hp : IsPath p) (hv : a.lookup (pathOf p) = some v) (w : Value)
    (b : Bool) : Says (.obj [(p,.obj [("$not",w)])]) a b ↔ Says (.obj [(p,w)]) a (!b) := by
  rw [says_operator_iff hp rfl hv,says_field_iff hp,hv,testSays_iff_yields]
  refine exists_congr fun room => ?_
  rw [readEntry_str,if_pos rfl,answers_map_iff]
  simp only [Operator.holds]
  exact answers_not_iff _ _ b

/-- An operator whose argument is no test is read in whatever room. -/
theorem says_plain_iff (hp : IsPath p) (hname : isOperatorKey (.str name) = true)
    (hv : a.lookup (pathOf p) = some v) {w : Value} {o : Operator}
    (h : ∀ room, readEntry 0 (room + 1) (.str name,w) = .ok o) (b : Bool) :
    Says (.obj [(p,.obj [(name,w)])]) a b ↔ o.holds (some v) = b := by
  rw [says_operator_iff hp hname hv]
  simp only [h,answers_ok_iff,exists_const]

theorem says_ne_iff (hp : IsPath p) (hv : a.lookup (pathOf p) = some v) (w : Value) (b : Bool) :
    Says (.obj [(p,.obj [("$ne",w)])]) a b ↔ Says (.obj [(p,.obj [("$eq",w)])]) a (!b) := by
  rw [says_plain_iff (o := .equal true w) hp rfl hv (fun _ => rfl),
    says_plain_iff (o := .equal false w) hp rfl hv (fun _ => rfl)]
  simp only [Operator.holds]
  cases v.same w <;> cases b <;> decide

theorem says_nin_iff (hp : IsPath p) (hv : a.lookup (pathOf p) = some v) (ws : List Value)
    (b : Bool) : Says (.obj [(p,.obj [("$nin",.list ws)])]) a b ↔
      Says (.obj [(p,.obj [("$in",.list ws)])]) a (!b) := by
  rw [says_plain_iff (o := .among true (some ws)) hp rfl hv (fun _ => rfl),
    says_plain_iff (o := .among false (some ws)) hp rfl hv (fun _ => rfl)]
  simp only [Operator.holds]
  cases v.isAmong ws <;> cases b <;> decide

variable {xs : List Value}

/-- Some item of a list meets a test. -/
theorem says_someValue_iff (hp : IsPath p) (hv : a.lookup (pathOf p) = some (.list xs)) {w : Value}
    (hw : isOperators w = true) (b : Bool) : Says (.obj [(p,.obj [("$elemMatch",w)])]) a b ↔
      Readable (.obj [(p,w)]) ∧ (b = true ↔ ∃ x ∈ xs, TestSays w (some x) true) := by
  have hroom : ∀ room, Answers (readEntry 0 (room + 1) (.str "$elemMatch",w))
      (·.holds (some (.list xs))) b ↔
        Answers (readTest 0 room w) (fun t => xs.any fun x => t.holds (some x)) b := by
    intro room
    have hread : readEntry 0 (room + 1) (.str "$elemMatch",w) =
        (readTest 0 room w).map .someValue := by
      rw [readEntry_str]
      simp [hw]
    rw [hread,answers_map_iff]
    simp only [Operator.holds]
  rw [says_operator_iff hp rfl hv,exists_congr hroom,readable_field_iff hp]
  simp only [testSays_iff_yields]
  rw [← yields_any_iff,← yields_iff steady_readTest]
  rfl

/-- Some item of a list is what a document asks for. -/
theorem says_someItem_iff (hp : IsPath p) (hv : a.lookup (pathOf p) = some (.list xs)) {w : Value}
    (hw : isOperators w = false) (b : Bool) : Says (.obj [(p,.obj [("$elemMatch",w)])]) a b ↔
      Readable w ∧ (b = true ↔ ∃ x ∈ xs, Says w x true) := by
  have hroom : ∀ room, Answers (readEntry 0 (room + 1) (.str "$elemMatch",w))
      (·.holds (some (.list xs))) b ↔
        Answers (readDocument 0 room w) (fun c => xs.any fun x => c.holds x) b := by
    intro room
    have hread : readEntry 0 (room + 1) (.str "$elemMatch",w) =
        (readDocument 0 room w).map .someItem := by
      rw [readEntry_str]
      simp [hw]
    rw [hread,answers_map_iff]
    simp only [Operator.holds]
  rw [says_operator_iff hp rfl hv,exists_congr hroom,readable_iff_reads]
  simp only [says_iff_yields]
  rw [← yields_any_iff,← yields_iff steady_readDocument]
  rfl

/-- Every test is met by some item of a list. -/
theorem says_every_iff (hp : IsPath p) (hv : a.lookup (pathOf p) = some (.list xs))
    (ws : List Value) (b : Bool) : Says (.obj [(p,.obj [("$all",.list ws)])]) a b ↔
      (∀ w ∈ ws, Readable (.obj [(p,w)])) ∧
        (b = true ↔ ∀ w ∈ ws, ∃ x ∈ xs, TestSays w (some x) true) := by
  have hroom : ∀ room, Answers (readEntry 0 (room + 1) (.str "$all",.list ws))
      (·.holds (some (.list xs))) b ↔ (∀ w ∈ ws, ∃ t, readTest 0 room w = .ok t) ∧
        (b = true ↔ ∀ w ∈ ws,
          Answers (readTest 0 room w) (fun t => xs.any fun x => t.holds (some x)) true) := by
    intro room
    have hread : readEntry 0 (room + 1) (.str "$all",.list ws) =
        (collect (readTest 0 room) ValueTest.refused ws).map (.every ∘ some) := rfl
    rw [hread,answers_map_iff]
    simp only [Function.comp,Operator.holds,ValueTest.allMet_eq_all]
    exact answers_collect_all_iff ws _ b
  rw [says_operator_iff hp rfl hv,exists_congr hroom,
    exists_room_iff steady_readTest _ (fun hP => forall₂_congr hP) b]
  simp only [readable_field_iff hp,testSays_iff_yields,yields_any_iff]

end Present

/-- How what documents say of attributes is put together. -/
structure Compositional (a : Value) : Prop where
  /-- Whatever the depth limit at which it is read, a document says the same. -/
  reading : ∀ (d : Value) (limit : Int) (c : Condition) (b : Bool), read d limit = .ok c →
    (Says d a b ↔ c.holds a = b)
  /-- What its test answers, a document says. -/
  answered : ∀ (d : Value) (limit : Int) (c : Condition) (b : Bool), read d limit = .ok c →
    c.test a = .ok b → Says d a b
  /-- Of what can be written the test answers all that is said. -/
  written : a.Writable → ∀ (d : Value) (limit : Int) (c : Condition) (b : Bool),
    read d limit = .ok c → (c.test a = .ok b ↔ Says d a b)
  and_iff : ∀ (ds : List Value) (b : Bool), Says (.obj [("$and",.list ds)]) a b ↔
    (∀ d ∈ ds, Readable d) ∧ (b = true ↔ ∀ d ∈ ds, Says d a true)
  /-- Without alternatives nothing is asked. -/
  or_iff : ∀ (ds : List Value) (b : Bool), Says (.obj [("$or",.list ds)]) a b ↔
    (∀ d ∈ ds, Readable d) ∧ (b = true ↔ ds = [] ∨ ∃ d ∈ ds, Says d a true)
  nor_iff : ∀ (ds : List Value) (b : Bool), Says (.obj [("$nor",.list ds)]) a b ↔
    Says (.obj [("$or",.list ds)]) a (!b)
  nor_iff_not_or : ∀ (ds : List Value) (b : Bool), Says (.obj [("$nor",.list ds)]) a b ↔
    Says (.obj [("$not",.obj [("$or",.list ds)])]) a b
  not_iff : ∀ (d : Value) (b : Bool), Says (.obj [("$not",d)]) a b ↔ Says d a (!b)
  fields_iff : ∀ (es : Entries) (b : Bool), Intake.named? es combinators = none →
    (Says (.map es) a b ↔
      (∀ e ∈ es, Readable (.map [e])) ∧ (b = true ↔ ∀ e ∈ es, Says (.map [e]) a true))
  /-- Where combinators are, all keys but the first of them may be left out. -/
  first_combinator : ∀ (es : Entries) (name : String) (v : Value),
    Intake.named? es combinators = some (name,v) →
    ∀ limit, read (.map es) limit = read (.obj [(name,v)]) limit
  /-- A field says what its test says of the value at its path. -/
  field_iff : ∀ (p : String) (w : Value) (b : Bool), IsPath p →
    (Says (.obj [(p,w)]) a b ↔ TestSays w (a.lookup (pathOf p)) b)
  operators_iff : ∀ (p : String) (es : Entries) (b : Bool), IsPath p →
    isOperators (.map es) = true →
    (Says (.obj [(p,.map es)]) a b ↔ (∀ e ∈ es, Readable (.obj [(p,.map [e])])) ∧
      (b = true ↔ ∀ e ∈ es, Says (.obj [(p,.map [e])]) a true))
  not_test_iff : ∀ (p : String) (v w : Value) (b : Bool), IsPath p →
    a.lookup (pathOf p) = some v →
    (Says (.obj [(p,.obj [("$not",w)])]) a b ↔ Says (.obj [(p,w)]) a (!b))
  ne_iff : ∀ (p : String) (v w : Value) (b : Bool), IsPath p → a.lookup (pathOf p) = some v →
    (Says (.obj [(p,.obj [("$ne",w)])]) a b ↔ Says (.obj [(p,.obj [("$eq",w)])]) a (!b))
  nin_iff : ∀ (p : String) (v : Value) (ws : List Value) (b : Bool), IsPath p →
    a.lookup (pathOf p) = some v →
    (Says (.obj [(p,.obj [("$nin",.list ws)])]) a b ↔
      Says (.obj [(p,.obj [("$in",.list ws)])]) a (!b))
  /-- An item of the list meets the argument as a test. -/
  someValue_iff : ∀ (p : String) (xs : List Value) (w : Value) (b : Bool), IsPath p →
    a.lookup (pathOf p) = some (.list xs) → isOperators w = true →
    (Says (.obj [(p,.obj [("$elemMatch",w)])]) a b ↔
      Readable (.obj [(p,w)]) ∧ (b = true ↔ ∃ x ∈ xs, TestSays w (some x) true))
  /-- The argument as a document holds of an item of the list. -/
  someItem_iff : ∀ (p : String) (xs : List Value) (w : Value) (b : Bool), IsPath p →
    a.lookup (pathOf p) = some (.list xs) → isOperators w = false →
    (Says (.obj [(p,.obj [("$elemMatch",w)])]) a b ↔
      Readable w ∧ (b = true ↔ ∃ x ∈ xs, Says w x true))
  every_iff : ∀ (p : String) (xs ws : List Value) (b : Bool), IsPath p →
    a.lookup (pathOf p) = some (.list xs) →
    (Says (.obj [(p,.obj [("$all",.list ws)])]) a b ↔
      (∀ w ∈ ws, Readable (.obj [(p,w)])) ∧
        (b = true ↔ ∀ w ∈ ws, ∃ x ∈ xs, TestSays w (some x) true))

/-- What a document says, and whether it is readable at all, is put together from its parts. -/
theorem documents_are_compositional (a : Value) : Compositional a where
  reading _ _ _ b h := says_of_read h a b
  answered _ _ c b h ht := (says_of_read h a b).mpr ((c.test_eq_ok_iff a b).mp ht).2
  written ha _ _ c b h := by rw [says_of_read h,c.test_of_writable ha,Except.ok.injEq]
  and_iff ds b := says_and_iff ds a b
  or_iff ds b := says_or_iff ds a b
  nor_iff ds b := says_nor_iff ds a b
  nor_iff_not_or ds b := (says_nor_iff ds a b).trans (says_not_iff _ a b).symm
  not_iff d b := says_not_iff d a b
  fields_iff _ b h := says_fields_iff_singletons h a b
  first_combinator _ _ _ h := read_of_first h
  field_iff _ w b hp := says_field_iff hp w a b
  operators_iff _ _ b hp h := says_operators_iff hp h a b
  not_test_iff _ _ w b hp hv := says_not_test_iff hp hv w b
  ne_iff _ _ w b hp hv := says_ne_iff hp hv w b
  nin_iff _ _ ws b hp hv := says_nin_iff hp hv ws b
  someValue_iff _ _ _ b hp hv hw := says_someValue_iff hp hv hw b
  someItem_iff _ _ _ b hp hv hw := says_someItem_iff hp hv hw b
  every_iff _ _ ws b hp hv := says_every_iff hp hv ws b

/-- Somebody of age who likes a colour other than red. -/
theorem adult_with_a_colour_is_said :
    let a : Value := .obj [("age",.int 20),("colours",.list [.str "red",.str "blue"])]
    let adult : Value := .obj [("age",.obj [("$not",.obj [("$lt",.int 18)])])]
    let colour : Value := .obj [("colours",.obj [("$elemMatch",.obj [("$ne",.str "red")])])]
    let document : Value := .obj [("$and",.list [adult,colour])]
    (IsPath "age" ∧ a.lookup (pathOf "age") = some (.int 20)) ∧
      (IsPath "colours" ∧ a.lookup (pathOf "colours") = some (.list [.str "red",.str "blue"])) ∧
      isOperators (.obj [("$ne",.str "red")]) = true ∧ a.Writable ∧
      Says document a true ∧ Says (.obj [("$not",document)]) a false ∧
      ∀ c, read document 8 = .ok c → c.test a = .ok true := by
  intro a adult colour document
  have hage : IsPath "age" := ⟨by decide,by decide⟩
  have hcolours : IsPath "colours" := ⟨by decide,by decide⟩
  have htwenty : a.lookup (pathOf "age") = some (.int 20) := rfl
  have hlist : a.lookup (pathOf "colours") = some (.list [.str "red",.str "blue"]) := rfl
  have hwritable : a.Writable := .obj (by
    simpa using ⟨.scalar rfl,.list rfl (by simpa using ⟨.scalar rfl,.scalar rfl⟩)⟩)
  have hlaws : Compositional a := documents_are_compositional a
  have hadult : Says adult a true :=
    (hlaws.not_test_iff "age" _ _ true hage htwenty).mpr ((hlaws.reading _ 8 _ _ rfl).mpr rfl)
  have hblue : TestSays (.obj [("$ne",.str "red")]) (some (.str "blue")) true :=
    ⟨8,8,_,rfl,rfl⟩
  have hcolour : Says colour a true :=
    (hlaws.someValue_iff "colours" _ _ true hcolours hlist rfl).mpr
      ⟨⟨8,_,rfl⟩,iff_of_true rfl ⟨_,by simp,hblue⟩⟩
  have hdocument : Says document a true := by
    refine (hlaws.and_iff _ true).mpr ⟨?_,iff_of_true rfl ?_⟩
    · simpa using ⟨(readable_iff adult a).mpr ⟨_,hadult⟩,(readable_iff colour a).mpr ⟨_,hcolour⟩⟩
    · simpa using ⟨hadult,hcolour⟩
  exact ⟨⟨hage,htwenty⟩,⟨hcolours,hlist⟩,rfl,hwritable,hdocument,
    (hlaws.not_iff document false).mpr hdocument,
    fun c hc => (hlaws.written hwritable _ _ c true hc).mpr hdocument⟩

/-- No alternatives count as met, so that denying them fails. -/
example : ((read (.obj [("$nor",.list [])]) 64).map (·.holds .null)).toOption = some false := rfl

end FlagEngine.Condition
