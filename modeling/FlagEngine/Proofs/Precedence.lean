import FlagEngine.Proofs.VersionOrder
import Mathlib.Order.Fin.Basic

/-! Version operators and the precedence of semantic versions. The padded parts of a core are its
three numbers, and behind them come the padded identifiers of a pre-release or the mark of a
release. Numeric identifiers keep room for a blank, which comes before every character of a textual
one, and the mark comes behind them all; so the parts stand to each other as precedence says, and
what builds are added makes no difference. -/
namespace FlagEngine
namespace Version

/-- An identifier of a pre-release: a number of at most four digits, or letters and digits of which
some are no digits. -/
inductive Identifier
  | numeric (n : Fin 10000)
  | textual (cs : List Char) (h : Alphanumeric cs) (notNumeric : ∃ c ∈ cs, c.isDigit = false)

/-- A semantic version with numbers of at most five digits, perhaps with a leading `v`. Without
identifiers it is a release. -/
structure Semantic where
  lead : Bool
  major : Fin 100000
  minor : Fin 100000
  patch : Fin 100000
  identifiers : List Identifier
  build : Option {cs : List Char // ∀ c ∈ cs, (c.isAlphanum || c == '.' || c == '-') = true}

namespace Identifier

def chars : Identifier → List Char
  | numeric n => Nat.toDigits 10 n
  | textual cs _ _ => cs

/-- Numbers stand below texts; numbers compare by value and texts character by character. -/
def precedence : Identifier → Identifier → Ordering
  | numeric m, numeric n => cmp m n
  | numeric _, textual _ _ _ => .lt
  | textual _ _ _, numeric _ => .gt
  | textual cs _ _, textual ds _ _ => cmp cs ds

/-- A release stands above all that have identifiers; these count from left to right, and a proper
prefix stands below what goes on. -/
def precedenceOfTails : List Identifier → List Identifier → Ordering
  | [], [] => .eq
  | [], _ :: _ => .gt
  | _ :: _, [] => .lt
  | i :: is, j :: js => List.compareLex precedence (i :: is) (j :: js)

end Identifier

namespace Semantic

def core (v : Semantic) : List (List Char) :=
  [Nat.toDigits 10 v.major,Nat.toDigits 10 v.minor,Nat.toDigits 10 v.patch]

def prerelease (v : Semantic) : List Char :=
  match v.identifiers with
  | [] => []
  | is => '-' :: dotted (is.map Identifier.chars)

def buildMetadata (v : Semantic) : List Char :=
  match v.build with
  | none => []
  | some cs => '+' :: cs.1

def text (v : Semantic) : String :=
  String.ofList ((if v.lead then ['v'] else []) ++
    (dotted v.core ++ v.prerelease ++ v.buildMetadata))

def precedence (u v : Semantic) : Ordering :=
  (cmp u.major v.major).then ((cmp u.minor v.minor).then ((cmp u.patch v.patch).then
    (Identifier.precedenceOfTails u.identifiers v.identifiers)))

end Semantic

/-! ### Identifiers and their padded parts -/

theorem compares_pad {k : Nat} (hk : k ≤ 100000) (m n : Fin k) :
    (cmp m n).Compares (pad (Nat.toDigits 10 m)) (pad (Nat.toDigits 10 n)) := by
  have hmono : ∀ m n : Fin k, m < n → pad (Nat.toDigits 10 m) < pad (Nat.toDigits 10 n) :=
    fun _ n hlt => pad_lt_pad hlt (n.isLt.trans_le hk)
  exact compares_map (f := fun n : Fin k => pad (Nat.toDigits 10 n)) (hmono m n) (hmono n m)
    (cmp_compares m n)

namespace Identifier

theorem alphanumeric (i : Identifier) : Alphanumeric i.chars := by
  cases i with
  | numeric n => exact alphanumeric_toDigits n
  | textual cs h _ => exact h

theorem pad_textual {cs : List Char} (h : ∃ c ∈ cs, c.isDigit = false) : pad cs = cs := by
  obtain ⟨c,hc,hdigit⟩ := h
  have hall : ¬ cs.all Char.isDigit = true := by
    intro hall
    rw [List.all_eq_true.mp hall c hc] at hdigit
    cases hdigit
  rw [pad,if_neg hall]

/-- A numeric identifier begins with a blank. -/
theorem exists_pad_numeric (n : Fin 10000) : ∃ cs, pad (Nat.toDigits 10 n) = ' ' :: cs := by
  have hlen : (Nat.toDigits 10 n).length ≤ 4 :=
    (Nat.length_toDigits_le_iff (by decide) (by decide)).mpr n.isLt
  have hroom : width - (Nat.toDigits 10 n).length = 4 - (Nat.toDigits 10 n).length + 1 := by
    unfold width
    omega
  rw [pad_toDigits,hroom,List.replicate_succ]
  exact ⟨_,rfl⟩

theorem solid_pad (i : Identifier) : Solid (pad i.chars) := by
  cases i with
  | numeric n => exact solid_pad_toDigits n
  | textual cs h h' =>
    rw [chars,pad_textual h']
    exact h.solid

theorem numeric_lt_textual (n : Fin 10000) {cs : List Char} (h : Alphanumeric cs)
    (h' : ∃ c ∈ cs, c.isDigit = false) : pad (Nat.toDigits 10 n) < pad cs := by
  obtain ⟨bs,hbs⟩ := exists_pad_numeric n
  rw [hbs,pad_textual h']
  obtain ⟨d,ds,rfl,hlow,-⟩ := h.exists_cons
  exact List.cons_lt_cons_iff.mpr (.inl (lt_of_lt_of_le (by decide : ' ' < '0') hlow))

theorem compares_precedence (i j : Identifier) :
    (i.precedence j).Compares (pad i.chars) (pad j.chars) := by
  cases i with
  | numeric m =>
    cases j with
    | numeric n => exact compares_pad (by decide) m n
    | textual ds h h' => exact numeric_lt_textual m h h'
  | textual cs h h' =>
    cases j with
    | numeric n => exact numeric_lt_textual n h h'
    | textual ds _ hds =>
      rw [chars,chars,pad_textual h',pad_textual hds]
      exact compares_cmp_chars cs ds

/-- The padded parts behind a core. -/
def tail : List Identifier → List (List Char)
  | [] => [['~']]
  | is => is.map fun i => pad i.chars

theorem pad_lt_mark (i : Identifier) : pad i.chars < ['~'] := by
  cases i with
  | numeric n =>
    obtain ⟨cs,hcs⟩ := exists_pad_numeric n
    rw [chars,hcs]
    exact List.cons_lt_cons_iff.mpr (.inl (by decide))
  | textual cs h h' =>
    rw [chars,pad_textual h']
    obtain ⟨d,ds,rfl,-,hhigh⟩ := h.exists_cons
    exact List.cons_lt_cons_iff.mpr (.inl (lt_of_le_of_lt hhigh (by decide : 'z' < '~')))

theorem compares_precedenceOfTails (is js : List Identifier) :
    (precedenceOfTails is js).Compares (tail is) (tail js) := by
  cases is with
  | nil =>
    cases js with
    | nil => exact rfl
    | cons j js => exact List.cons_lt_cons_iff.mpr (.inl (pad_lt_mark j))
  | cons i is =>
    cases js with
    | nil => exact List.cons_lt_cons_iff.mpr (.inl (pad_lt_mark i))
    | cons j js => exact compares_compareLex compares_precedence (i :: is) (j :: js)

theorem solid_of_mem_tail {is : List Identifier} : ∀ p ∈ tail is, Solid p := by
  intro p hp
  cases is with
  | nil =>
    obtain rfl : p = ['~'] := List.mem_singleton.mp hp
    exact solid_mark
  | cons i is =>
    obtain ⟨j,-,rfl⟩ := List.mem_map.mp hp
    exact solid_pad j

end Identifier

/-! ### The padded parts of a version -/

namespace Semantic

/-- The parts of a version as they are compared. -/
def paddedParts (v : Semantic) : List (List Char) := v.core.map pad ++ Identifier.tail v.identifiers

theorem compares_paddedParts (u v : Semantic) :
    (u.precedence v).Compares u.paddedParts v.paddedParts :=
  compares_cons (compares_pad le_rfl _ _) (compares_cons (compares_pad le_rfl _ _)
    (compares_cons (compares_pad le_rfl _ _) (Identifier.compares_precedenceOfTails _ _)))

theorem solid_of_mem_paddedParts (v : Semantic) : ∀ p ∈ v.paddedParts, Solid p := by
  intro p hp
  rcases List.mem_append.mp hp with hp | hp
  · obtain ⟨ds,hds,rfl⟩ := List.mem_map.mp hp
    simp only [core,List.mem_cons,List.not_mem_nil,or_false] at hds
    rcases hds with rfl | rfl | rfl <;> exact solid_pad_toDigits _
  · exact Identifier.solid_of_mem_tail p hp

theorem alphanumeric_core (v : Semantic) : ∀ p ∈ v.core, Alphanumeric p := by
  intro p hp
  simp only [core,List.mem_cons,List.not_mem_nil,or_false] at hp
  rcases hp with rfl | rfl | rfl <;> exact alphanumeric_toDigits _

theorem alphanumeric_identifiers (v : Semantic) :
    ∀ p ∈ v.identifiers.map Identifier.chars, Alphanumeric p := by
  intro p hp
  obtain ⟨i,-,rfl⟩ := List.mem_map.mp hp
  exact i.alphanumeric

theorem parts_prerelease (v : Semantic) :
    parts (dotted v.core ++ v.prerelease) = v.core ++ v.identifiers.map Identifier.chars := by
  have hcore := parts_dotted v.alphanumeric_core
  have hids := parts_dotted v.alphanumeric_identifiers
  cases h : v.identifiers with
  | nil => simp [prerelease,h,hcore]
  | cons i is =>
    have hpre : v.prerelease = '-' :: dotted (v.identifiers.map Identifier.chars) := by
      simp [prerelease,h]
    rw [hpre,parts_append_cons _ _ rfl,hcore,hids,h]

theorem plus_not_mem_prerelease (v : Semantic) : '+' ∉ dotted v.core ++ v.prerelease := by
  have hcore := plus_not_mem_dotted v.alphanumeric_core
  have hids := plus_not_mem_dotted v.alphanumeric_identifiers
  cases h : v.identifiers with
  | nil => simp [prerelease,h,hcore]
  | cons i is =>
    rw [h,List.map_cons] at hids
    simp [prerelease,h,hcore,hids]

theorem dropBuild_buildMetadata (v : Semantic) : dropBuild v.buildMetadata = [] := by
  cases h : v.build with
  | none => simp [buildMetadata,h,dropBuild]
  | some cs =>
    have hbreak : '\n' ∉ cs.1 := fun hbreak => absurd (cs.2 '\n' hbreak) (by decide)
    simp [buildMetadata,h,dropBuild_plus hbreak]

theorem dropLead_text (v : Semantic) :
    dropLead v.text.toList = dotted v.core ++ v.prerelease ++ v.buildMetadata := by
  rw [text,String.toList_ofList]
  cases v.lead with
  | true => rfl
  | false =>
    rw [core,dotted_cons_cons]
    simp only [if_neg Bool.false_ne_true,List.nil_append,List.append_assoc]
    exact dropLead_toDigits_append v.major _

theorem normal_text (v : Semantic) : normal v.text.toList = join v.paddedParts := by
  have hcut : parts (dropBuild (dropLead v.text.toList)) =
      v.core ++ v.identifiers.map Identifier.chars := by
    rw [dropLead_text,dropBuild_append v.plus_not_mem_prerelease,dropBuild_buildMetadata,
      List.append_nil,parts_prerelease]
  rw [normal,hcut,paddedParts]
  cases v.identifiers with
  | nil => rfl
  | cons i is => simp [core,Identifier.tail,Function.comp_def]

/-- Each version operator on two semantic versions says what their precedence says. -/
theorem operators_follow_precedence (u v : Semantic) (r : VersionRelation) (b : Bool) :
    Condition.TestSays (.obj [(r.name,.str v.text)]) (some (.str u.text)) b ↔
      r.admits (u.precedence v) = b := by
  have hjoin : (u.precedence v).Compares (join u.paddedParts) (join v.paddedParts) :=
    compares_join u.solid_of_mem_paddedParts v.solid_of_mem_paddedParts (compares_paddedParts u v)
  have hpadded : (u.precedence v).Compares (padded u.text) (padded v.text) := by
    rw [padded,padded,normal_text,normal_text]
    exact compares_ofList hjoin
  rw [Condition.testSays_version_iff,VersionRelation.holds_eq_admits hpadded]

end Semantic
end Version
end FlagEngine
