import FlagEngine.Proofs.Meaning
import Mathlib.Data.List.Chain
import Mathlib.Logic.Relation

/-! How deep conditions go. A limit on the depth has two sides: a document that it lets through is
read no differently under a larger one, and the tree that is read under it is not deeper than it
says. Each level of a document makes two nodes of the tree at most, so twice the number of levels
bounds every chain of nodes, each of them right below the one before it. -/
namespace FlagEngine.Condition

inductive Node
  | condition (c : Condition)
  | test (t : ValueTest)
  | operator (o : Operator)

namespace Node

/-- The nodes right below a node. -/
def children : Node → List Node
  | .condition (.allOf cs) => cs.map .condition
  | .condition (.anyOf cs) => cs.map .condition
  | .condition (.not c) => [.condition c]
  | .condition (.field _ _ t) => [.test t]
  | .test (.literal _) => []
  | .test (.operators os) => os.map .operator
  | .operator (.not t) => [.test t]
  | .operator (.size t) => [.test t]
  | .operator (.every (some ts)) => ts.map .test
  | .operator (.someValue t) => [.test t]
  | .operator (.someItem c) => [.condition c]
  | .operator _ => []

def Above (n m : Node) : Prop := m ∈ n.children

/-- Nodes each of which is right below the one before it. -/
abbrev Nested (ns : List Node) : Prop := ns.IsChain Above

/-- The second node is the first or somewhere below it. -/
abbrev Within (n m : Node) : Prop := Relation.ReflTransGen Above n m

/-- No chain from a node on has more than so many nodes. -/
def Shallow (k : Nat) (n : Node) : Prop := ∀ ns, Nested (n :: ns) → (n :: ns).length ≤ k

variable {k l : Nat} {n m : Node}

theorem Shallow.mono (h : n.Shallow k) (hkl : k ≤ l) : n.Shallow l :=
  fun ns hns => (h ns hns).trans hkl

theorem shallow_succ_iff : n.Shallow (k + 1) ↔ ∀ m ∈ n.children, m.Shallow k := by
  constructor
  · intro h m hm ns hns
    have hlength := h (m :: ns) (List.isChain_cons_cons.mpr ⟨hm,hns⟩)
    exact Nat.le_of_succ_le_succ hlength
  · rintro h (_ | ⟨m,ns⟩) hns
    · exact Nat.succ_le_succ (Nat.zero_le k)
    · obtain ⟨hm,hns⟩ := List.isChain_cons_cons.mp hns
      exact Nat.succ_le_succ (h m hm ns hns)

/-- What lies within a shallow node is shallow. -/
theorem Shallow.within (h : n.Shallow k) (hm : n.Within m) : m.Shallow k := by
  induction hm with
  | refl => exact h
  | tail _ hchild ih => exact (shallow_succ_iff.mp (ih.mono (Nat.le_succ k))) _ hchild

/-- Only operators with these names have tests or conditions below them. -/
theorem children_eq_nil_of_name {o : Operator}
    (h : o.name ∉ ["$not","$size","$all","$elemMatch"]) : (operator o).children = [] := by
  cases o with
  | not | size | someValue | someItem | every => simp [Operator.name] at h
  | _ => rfl

end Node

open Node

variable {limit : Int} {room k : Nat}

theorem forall_of_collect {α β : Type} {f : α → Except ConditionFailure β}
    {refused : β → List String} {P : β → Prop} (hP : ∀ x y, f x = .ok y → P y) {xs : List α}
    {ys : List β} (h : collect f refused xs = .ok ys) : ∀ y ∈ ys, P y := by
  have hxs := forall₂_of_collect h
  clear h
  induction hxs with
  | nil => simp
  | cons hx _ ih => exact List.forall_mem_cons.mpr ⟨hP _ _ hx,ih⟩

theorem shallow_of_readTest
    (hEntry : ∀ e o, readEntry limit room e = .ok o → (operator o).Shallow k) {v : Value}
    {t : ValueTest} (h : readTest limit (room + 1) v = .ok t) : (Node.test t).Shallow (k + 1) := by
  rw [shallow_succ_iff]
  cases hoperators : isOperators v with
  | false =>
    rw [readTest_of_not_operators hoperators] at h
    obtain rfl := Except.ok.inj h
    exact List.forall_mem_nil _
  | true =>
    cases v with
    | map es =>
      rw [readTest_of_operators hoperators] at h
      obtain ⟨os,hos,rfl⟩ := exists_of_map_eq_ok h
      exact List.forall_mem_map.mpr (forall_of_collect hEntry hos)
    | _ => simp [isOperators] at hoperators

theorem shallow_of_readEntry
    (hTest : ∀ v t, readTest limit room v = .ok t → (Node.test t).Shallow k)
    (hDocument : ∀ v c, readDocument limit room v = .ok c → (condition c).Shallow k)
    {e : Scalar × Value} {o : Operator} (h : readEntry limit (room + 1) e = .ok o) :
    (operator o).Shallow (k + 1) := by
  obtain ⟨key,v⟩ := e
  obtain rfl : key = .str o.name := key_of_readEntry h
  rw [shallow_succ_iff]
  rw [readEntry_str] at h
  split_ifs at h with hnot hsize hall helem _
  · obtain ⟨t,ht,rfl⟩ := exists_of_map_eq_ok h
    exact List.forall_mem_singleton.mpr (hTest v t ht)
  · obtain ⟨t,ht,rfl⟩ := exists_of_map_eq_ok h
    exact List.forall_mem_singleton.mpr (hTest v t ht)
  · unfold readEvery at h
    split at h
    · obtain ⟨ts,hts,rfl⟩ := exists_of_map_eq_ok h
      exact List.forall_mem_map.mpr (forall_of_collect hTest hts)
    · obtain rfl := Except.ok.inj h
      exact List.forall_mem_nil _
  · obtain ⟨t,ht,rfl⟩ := exists_of_map_eq_ok h
    exact List.forall_mem_singleton.mpr (hTest v t ht)
  · obtain ⟨c,hc,rfl⟩ := exists_of_map_eq_ok h
    exact List.forall_mem_singleton.mpr (hDocument v c hc)
  · rw [children_eq_nil_of_name (by simp [hnot,hsize,hall,helem])]
    exact List.forall_mem_nil _

/-- A field is a node of its own above its test. -/
theorem shallow_of_readField {f : Value → Except ConditionFailure ValueTest}
    (hf : ∀ v t, f v = .ok t → (Node.test t).Shallow k) {e : Scalar × Value} {c : Condition}
    (h : readField f e = .ok c) : (condition c).Shallow (k + 1) := by
  rw [shallow_succ_iff]
  unfold readField at h
  split at h
  · split_ifs at h
    · cases h
    · cases h
    · obtain ⟨t,ht,rfl⟩ := exists_of_map_eq_ok h
      exact List.forall_mem_singleton.mpr (hf e.2 t ht)
  · exact absurd h (rejectPath_ne_ok _ c)

/-- What denies its alternatives is a node of its own above them. -/
theorem shallow_of_readCombinator {f : Value → Except ConditionFailure Condition}
    (hf : ∀ v c, f v = .ok c → (condition c).Shallow k) {name : String} {v : Value}
    {c : Condition} (h : readCombinator f name v = .ok c) : (condition c).Shallow (k + 2) := by
  have hlist : ∀ {cs}, readList f name v = .ok cs →
      ∀ m ∈ cs.map Node.condition, m.Shallow k := by
    intro cs hcs
    unfold readList at hcs
    split at hcs
    · exact List.forall_mem_map.mpr (forall_of_collect hf hcs)
    · cases hcs
  unfold readCombinator at h
  split_ifs at h
  · obtain ⟨cs,hcs,rfl⟩ := exists_of_map_eq_ok h
    have hany : (condition (.anyOf cs)).Shallow (k + 1) := shallow_succ_iff.mpr (hlist hcs)
    exact hany.mono (Nat.le_succ _)
  · obtain ⟨cs,hcs,rfl⟩ := exists_of_map_eq_ok h
    have hany : (condition (.anyOf cs)).Shallow (k + 1) := shallow_succ_iff.mpr (hlist hcs)
    exact shallow_succ_iff.mpr (List.forall_mem_singleton.mpr hany)
  · obtain ⟨cs,hcs,rfl⟩ := exists_of_map_eq_ok h
    have hall : (condition (.allOf cs)).Shallow (k + 1) := shallow_succ_iff.mpr (hlist hcs)
    exact hall.mono (Nat.le_succ _)
  · obtain ⟨c,hc,rfl⟩ := exists_of_map_eq_ok h
    have hnot : (condition (.not c)).Shallow (k + 1) :=
      shallow_succ_iff.mpr (List.forall_mem_singleton.mpr (hf v c hc))
    exact hnot.mono (Nat.le_succ _)

theorem shallow_of_readDocument
    (hTest : ∀ v t, readTest limit room v = .ok t → (Node.test t).Shallow k)
    (hDocument : ∀ v c, readDocument limit room v = .ok c → (condition c).Shallow k) {v : Value}
    {c : Condition} (h : readDocument limit (room + 1) v = .ok c) :
    (condition c).Shallow (k + 2) := by
  cases v with
  | map es =>
    rw [readDocument_map] at h
    rcases hfirst : Intake.named? es combinators with _ | ⟨name,v⟩ <;> simp only [hfirst] at h
    · obtain ⟨cs,hcs,rfl⟩ := exists_of_map_eq_ok h
      have hfields := forall_of_collect (fun _ _ he => shallow_of_readField hTest he) hcs
      exact shallow_succ_iff.mpr (List.forall_mem_map.mpr hfields)
    · exact shallow_of_readCombinator hDocument h
  | _ => cases h

/-- Where there is room for so many levels, no chain has more than twice as many nodes. -/
theorem shallow_of_room (limit : Int) (room : Nat) :
    (∀ v t, readTest limit room v = .ok t → (Node.test t).Shallow (2 * room)) ∧
      (∀ e o, readEntry limit room e = .ok o → (operator o).Shallow (2 * room)) ∧
        ∀ v c, readDocument limit room v = .ok c → (condition c).Shallow (2 * room) := by
  induction room with
  | zero =>
    refine ⟨fun v t h => ?_,fun e o h => ?_,fun v c h => ?_⟩
    · exact absurd h (rejectDepth_ne_ok limit t)
    · exact absurd h (rejectDepth_ne_ok limit o)
    · exact absurd h (rejectDepth_ne_ok limit c)
  | succ room ih =>
    obtain ⟨hTest,hEntry,hDocument⟩ := ih
    have hle : 2 * room + 1 ≤ 2 * (room + 1) := by omega
    exact ⟨fun v t h => (shallow_of_readTest hEntry h).mono hle,
      fun e o h => (shallow_of_readEntry hTest hDocument h).mono hle,
      fun v c h => shallow_of_readDocument hTest hDocument h⟩

section Tight

/-! Alternatives denied over and over: as deep as a limit lets documents be, two nodes a level. -/

def denials : Nat → Value
  | 0 => .obj [("$nor",.list [])]
  | n + 1 => .obj [("$nor",.list [denials n])]

def denialTree : Nat → Condition
  | 0 => .not (.anyOf [])
  | n + 1 => .not (.anyOf [denialTree n])

/-- The nodes below the outermost one. -/
def denialChain : Nat → List Node
  | 0 => [condition (.anyOf [])]
  | n + 1 => condition (.anyOf [denialTree n]) :: condition (denialTree n) :: denialChain n

theorem readDocument_denials (limit : Int) (n : Nat) :
    readDocument limit (n + 1) (denials n) = .ok (denialTree n) := by
  induction n with
  | zero => rfl
  | succ n ih =>
    have hlist : readList (readDocument limit (n + 1)) "$nor" (.list [denials n]) =
        .ok [denialTree n] := by
      simp only [readList,collect,ih]
    rw [denials,Value.obj,readDocument_map]
    show (readList (readDocument limit (n + 1)) "$nor" (.list [denials n])).map _ = _
    rw [hlist]
    rfl

theorem nested_denialChain (n : Nat) :
    Nested (condition (denialTree n) :: denialChain n) := by
  induction n with
  | zero => exact .cons_cons (List.mem_singleton.mpr rfl) (.singleton _)
  | succ n ih =>
    exact .cons_cons (List.mem_singleton.mpr rfl) (.cons_cons (List.mem_singleton.mpr rfl) ih)

theorem length_denialChain (n : Nat) : (denialChain n).length = 2 * n + 1 := by
  induction n with
  | zero => rfl
  | succ n ih => rw [denialChain,List.length_cons,List.length_cons,ih]; omega

end Tight

/-- What is read under a limit is read so under every larger one, and what is refused under a limit
is refused under every smaller one. In a tree that is read under a limit no chain of nodes within
it has more than two nodes for each level, of which there is one more than the limit says; and for
every limit there is a tree with a chain of just that many. -/
theorem limit_is_steady_and_bounds_depth (document : Value) :
    (∀ (limit limit' : Int) (c : Condition), limit ≤ limit' → read document limit = .ok c →
      read document limit' = .ok c) ∧
    (∀ limit limit' : Int, limit ≤ limit' → (∃ e, read document limit' = .error e) →
      ∃ e, read document limit = .error e) ∧
    (∀ (limit : Int) (c : Condition), read document limit = .ok c → ∀ ns : List Node, Nested ns →
      (∀ n ∈ ns, (condition c).Within n) → (ns.length : Int) ≤ 2 * (limit + 1)) ∧
    ∀ limit : Nat, ∃ (d : Value) (c : Condition) (ns : List Node), read d limit = .ok c ∧
      Nested (condition c :: ns) ∧ (condition c :: ns).length = 2 * (limit + 1) := by
  have hsteady : ∀ (limit limit' : Int) (c : Condition), limit ≤ limit' →
      read document limit = .ok c → read document limit' = .ok c := by
    intro limit limit' c hle h
    exact (read_of_room_le (by omega)).2.2 _ _ h
  refine ⟨hsteady,fun limit limit' hle he => ?_,fun limit c h ns hns hwithin => ?_,
    fun limit => ?_⟩
  · rcases hread : read document limit with e | c
    · exact ⟨e,rfl⟩
    · obtain ⟨e,he⟩ := he
      rw [hsteady limit limit' c hle hread] at he
      cases he
  · have hshallow := (shallow_of_room limit (limit + 1).toNat).2.2 document c h
    have hroom : 0 < (limit + 1).toNat := by
      by_contra hno
      rw [read,Nat.eq_zero_of_not_pos hno,readDocument] at h
      exact rejectDepth_ne_ok limit c h
    cases ns with
    | nil => simp only [List.length_nil]; omega
    | cons n ns =>
      have hlength := hshallow.within (hwithin n List.mem_cons_self) ns hns
      omega
  · refine ⟨denials limit,denialTree limit,denialChain limit,readDocument_denials _ limit,
      nested_denialChain limit,?_⟩
    rw [List.length_cons,length_denialChain]
    omega

/-- Nobody may have a tag that is no list of two. -/
def deniedTags : Value :=
  let pair : Value := .obj [("$not",.obj [("$size",.int 2)])]
  .obj [("$nor",.list [.obj [("tags",.obj [("$elemMatch",pair)])]])]

theorem deniedTags_takes_nine_levels :
    ∃ c, read deniedTags 8 = .ok c ∧ read deniedTags 64 = .ok c ∧
      (∃ e, read deniedTags 7 = .error e) ∧ (∃ e, read deniedTags 3 = .error e) ∧
      ∀ ns : List Node, Nested ns → (∀ n ∈ ns, (condition c).Within n) → ns.length ≤ 18 := by
  obtain ⟨hsteady,hrefused,hbound,-⟩ := limit_is_steady_and_bounds_depth deniedTags
  have hseven : ∃ e, read deniedTags 7 = .error e := ⟨_,rfl⟩
  refine ⟨_,rfl,hsteady 8 64 _ (by decide) rfl,hseven,hrefused 3 7 (by decide) hseven,?_⟩
  intro ns hns hwithin
  have hlength := hbound 8 _ rfl ns hns hwithin
  omega

end FlagEngine.Condition
