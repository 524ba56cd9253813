import FlagEngine.Proofs.Meaning
import Mathlib.Data.List.Lex
import Mathlib.Data.String.Basic
import Mathlib.Order.Compare

/-! The order of padded versions. Every part of one is blanks and then characters above the
separator, so where two parts differ the separator behind the shorter one does no harm: padded
versions stand to each other as the lists of their parts do. Numbers stand to each other as they do
when padded, as long as the smaller one has room for a blank or both have the same width. -/
namespace FlagEngine

/-- What a relation asks of the order in which two versions stand. -/
def VersionRelation.admits : VersionRelation → Ordering → Bool
  | .same, o => o == .eq
  | .differs, o => o != .eq
  | .above, o => o == .gt
  | .atLeast, o => o != .lt
  | .below, o => o == .lt
  | .atMost, o => o != .gt

theorem VersionRelation.holds_eq_admits {o : Ordering} {s t : String} (h : o.Compares s t)
    (r : VersionRelation) : r.holds s t = r.admits o := by
  cases o with
  | lt =>
    have hst : s < t := h
    cases r <;> simp [holds,admits,bne,hst,hst.ne,hst.not_gt]
  | eq =>
    obtain rfl : s = t := h
    cases r <;> simp [holds,admits]
  | gt =>
    have hts : t < s := h
    cases r <;> simp [holds,admits,bne,hts,hts.ne',hts.not_gt]

/-- A version operator on a text says how the padded texts stand to each other. -/
theorem Condition.testSays_version_iff (r : VersionRelation) (s t : String) (b : Bool) :
    TestSays (.obj [(r.name,.str t)]) (some (.str s)) b ↔
      r.holds (Version.padded s) (Version.padded t) = b := by
  have hname : isOperatorKey (.str r.name) = true := by cases r <;> rfl
  have hread : readEntry 0 1 (.str r.name,.str t) = .ok (.version r (some (Version.padded t))) := by
    cases r <;> rfl
  exact (testSays_operator_iff (e := (.str r.name,.str t)) hname _ b).trans
    (yields_iff_of_reads steady_readEntry hread _ b)

theorem compares_map {α β : Type} [LT α] [LT β] {f : α → β} {o : Ordering} {a b : α}
    (hlt : a < b → f a < f b) (hgt : b < a → f b < f a) (h : o.Compares a b) :
    o.Compares (f a) (f b) := by
  cases o with
  | lt => exact hlt h
  | eq => exact congrArg f h
  | gt => exact hgt h

theorem compares_cmp_chars (cs ds : List Char) : (cmp cs ds).Compares cs ds := by
  rw [cmp,cmpUsing]
  split_ifs with hlt hgt
  · exact hlt
  · exact hgt
  · exact le_antisymm (not_lt.mp hgt) (not_lt.mp hlt)

theorem compares_cons {α : Type} [LT α] {o o' : Ordering} {a b : α} {as bs : List α}
    (h : o.Compares a b) (h' : o'.Compares as bs) : (o.then o').Compares (a :: as) (b :: bs) := by
  cases o with
  | lt => exact List.cons_lt_cons_iff.mpr (.inl h)
  | gt => exact List.cons_lt_cons_iff.mpr (.inl h)
  | eq =>
    obtain rfl : a = b := h
    cases o' with
    | lt => exact List.cons_lt_cons_iff.mpr (.inr ⟨rfl,h'⟩)
    | gt => exact List.cons_lt_cons_iff.mpr (.inr ⟨rfl,h'⟩)
    | eq => exact congrArg (a :: ·) h'

theorem compares_compareLex {α β : Type} [LT β] {f : α → β} {cmp : α → α → Ordering}
    (h : ∀ a b, (cmp a b).Compares (f a) (f b)) (as bs : List α) :
    (List.compareLex cmp as bs).Compares (as.map f) (bs.map f) := by
  induction as generalizing bs with
  | nil =>
    cases bs with
    | nil => rfl
    | cons b bs => exact List.nil_lt_cons _ _
  | cons a as ih =>
    cases bs with
    | nil => exact List.nil_lt_cons _ _
    | cons b bs =>
      rw [List.compareLex_cons_cons]
      exact compares_cons (h a b) (ih bs)

namespace Version

/-! ### Parts and the texts that they are joined to -/

/-- Blanks, then at least one character, all of them above the separator. -/
inductive Solid : List Char → Prop
  | body {cs : List Char} (hne : cs ≠ []) (h : ∀ c ∈ cs, '-' < c) : Solid cs
  | blank {cs : List Char} (h : Solid cs) : Solid (' ' :: cs)

theorem Solid.ne_nil {cs : List Char} (h : Solid cs) : cs ≠ [] := by
  cases h with
  | body hne _ => exact hne
  | blank _ => exact List.cons_ne_nil _ _

theorem Solid.replicate_append (k : Nat) {cs : List Char} (h : Solid cs) :
    Solid (List.replicate k ' ' ++ cs) := by
  induction k with
  | zero => exact h
  | succ k ih => exact .blank ih

/-- What is put behind three parts. -/
theorem solid_mark : Solid ['~'] :=
  .body (List.cons_ne_nil _ _) (List.forall_mem_singleton.mpr (by decide))

/-- What goes beyond a whole part goes on above the separator. -/
theorem Solid.sep_lt {p q : List Char} (hp : Solid p) (hq : Solid q) {c : Char} {cs : List Char}
    (h : q = p ++ c :: cs) : '-' < c := by
  induction hp generalizing q with
  | @body p hne hbody =>
    obtain ⟨d,ds,rfl⟩ := List.exists_cons_of_ne_nil hne
    cases hq with
    | body _ hall => exact hall c (by simp [h])
    | blank _ =>
      obtain rfl : ' ' = d := (List.cons.inj h).1
      exact absurd (hbody ' ' List.mem_cons_self) (by decide)
  | blank _ ih =>
    cases hq with
    | body _ hall => exact absurd (hall ' ' (by simp [h])) (by decide)
    | blank hq => exact ih hq (List.cons.inj h).2

/-- What follows the first part. -/
def rest : List (List Char) → List Char
  | [] => []
  | p :: ps => '-' :: join (p :: ps)

theorem join_cons (p : List Char) (ps : List (List Char)) : join (p :: ps) = p ++ rest ps := by
  cases ps with
  | nil => exact (List.append_nil p).symm
  | cons q ps => rfl

theorem append_lt_append {α : Type} [LT α] {p q cs ds : List α} (h : p < q)
    (hbeyond : ∀ e es, q = p ++ e :: es → cs < e :: es ++ ds) : p ++ cs < q ++ ds := by
  induction p generalizing q with
  | nil =>
    cases q with
    | nil => exact absurd h (List.not_lt_nil _)
    | cons e es => exact hbeyond e es rfl
  | cons c p ih =>
    cases q with
    | nil => exact absurd h (List.not_lt_nil _)
    | cons d q =>
      rcases List.cons_lt_cons_iff.mp h with hlt | ⟨rfl,hlt⟩
      · exact List.cons_lt_cons_iff.mpr (.inl hlt)
      · refine List.cons_lt_cons_iff.mpr (.inr ⟨rfl,ih hlt fun e es he => ?_⟩)
        exact hbeyond e es (congrArg (c :: ·) he)

theorem rest_lt_cons (ps : List (List Char)) {c : Char} (hc : '-' < c) (cs : List Char) :
    rest ps < c :: cs := by
  cases ps with
  | nil => exact List.nil_lt_cons c cs
  | cons p ps => exact List.cons_lt_cons_iff.mpr (.inl hc)

theorem join_lt_join {ps qs : List (List Char)} (hps : ∀ p ∈ ps, Solid p) (hqs : ∀ q ∈ qs, Solid q)
    (h : ps < qs) : join ps < join qs := by
  induction ps generalizing qs with
  | nil =>
    cases qs with
    | nil => exact absurd h (List.not_lt_nil _)
    | cons q qs =>
      rw [join_cons]
      obtain ⟨c,cs,hq⟩ := List.exists_cons_of_ne_nil (hqs q List.mem_cons_self).ne_nil
      rw [hq]
      exact List.nil_lt_cons c (cs ++ rest qs)
  | cons p ps ih =>
    cases qs with
    | nil => exact absurd h (List.not_lt_nil _)
    | cons q qs =>
      obtain ⟨hp,hps'⟩ := List.forall_mem_cons.mp hps
      obtain ⟨hq,hqs'⟩ := List.forall_mem_cons.mp hqs
      rw [join_cons,join_cons]
      rcases List.cons_lt_cons_iff.mp h with hlt | ⟨rfl,hlt⟩
      · exact append_lt_append hlt fun c cs he => rest_lt_cons ps (hp.sep_lt hq he) _
      · refine List.append_left_lt ?_
        cases qs with
        | nil => exact absurd hlt (List.not_lt_nil _)
        | cons r qs =>
          cases ps with
          | nil => exact List.nil_lt_cons '-' _
          | cons r' ps => exact List.cons_lt_cons_iff.mpr (.inr ⟨rfl,ih hps' hqs' hlt⟩)

/-- Joined parts stand to each other as the lists of parts do. -/
theorem compares_join {ps qs : List (List Char)} (hps : ∀ p ∈ ps, Solid p)
    (hqs : ∀ q ∈ qs, Solid q) {o : Ordering} (h : o.Compares ps qs) :
    o.Compares (join ps) (join qs) :=
  compares_map (join_lt_join hps hqs) (join_lt_join hqs hps) h

theorem compares_ofList {o : Ordering} {cs ds : List Char} (h : o.Compares cs ds) :
    o.Compares (String.ofList cs) (String.ofList ds) := by
  have hmono : ∀ cs ds : List Char, cs < ds → String.ofList cs < String.ofList ds := by
    intro cs ds hlt
    rw [String.lt_iff,String.toList_ofList,String.toList_ofList]
    exact hlt
  exact compares_map (hmono cs ds) (hmono ds cs) h

/-! ### Letters and digits -/

/-- At least one character, and letters and digits only. -/
structure Alphanumeric (cs : List Char) : Prop where
  ne_nil : cs ≠ []
  all : ∀ c ∈ cs, c.isAlphanum = true

theorem bounds_of_isAlphanum {c : Char} (h : c.isAlphanum = true) : '0' ≤ c ∧ c ≤ 'z' := by
  have hcases : (c.isUpper || c.isLower || c.isDigit) = true := h
  simp only [Bool.or_eq_true] at hcases
  rcases hcases with (hupper | hlower) | hdigit
  · have hbounds : 'A' ≤ c ∧ c ≤ 'Z' := of_decide_eq_true hupper
    exact ⟨le_trans (by decide) hbounds.1,le_trans hbounds.2 (by decide)⟩
  · obtain ⟨hlow,hhigh⟩ := Bool.and_eq_true_iff.mp hlower
    have hbounds : 'a' ≤ c ∧ c ≤ 'z' := ⟨of_decide_eq_true hlow,of_decide_eq_true hhigh⟩
    exact ⟨le_trans (by decide) hbounds.1,hbounds.2⟩
  · obtain ⟨hlow,hhigh⟩ := Bool.and_eq_true_iff.mp hdigit
    have hbounds : '0' ≤ c ∧ c ≤ '9' := ⟨of_decide_eq_true hlow,of_decide_eq_true hhigh⟩
    exact ⟨hbounds.1,le_trans hbounds.2 (by decide)⟩

theorem sep_lt_of_isAlphanum {c : Char} (h : c.isAlphanum = true) : '-' < c :=
  lt_of_lt_of_le (by decide) (bounds_of_isAlphanum h).1

theorem not_isSeparator_of_isAlphanum {c : Char} (h : c.isAlphanum = true) :
    isSeparator c = false := by
  by_contra hc
  simp only [isSeparator,Bool.not_eq_false,Bool.or_eq_true,beq_iff_eq] at hc
  rcases hc with rfl | rfl <;> cases h

theorem Alphanumeric.exists_cons {cs : List Char} (h : Alphanumeric cs) :
    ∃ d ds, cs = d :: ds ∧ '0' ≤ d ∧ d ≤ 'z' := by
  obtain ⟨d,ds,rfl⟩ := List.exists_cons_of_ne_nil h.ne_nil
  exact ⟨d,ds,rfl,bounds_of_isAlphanum (h.all d List.mem_cons_self)⟩

theorem Alphanumeric.solid {cs : List Char} (h : Alphanumeric cs) : Solid cs :=
  .body h.ne_nil fun c hc => sep_lt_of_isAlphanum (h.all c hc)

/-! ### The parts of a text -/

theorem parts_append_cons (cs ds : List Char) {c : Char} (hc : isSeparator c = true) :
    parts (cs ++ c :: ds) = parts cs ++ parts ds := by
  rw [parts,List.splitOnP_append_cons cs ds hc,List.filter_append]
  rfl

theorem Alphanumeric.parts_eq {cs : List Char} (h : Alphanumeric cs) : parts cs = [cs] := by
  have hsep : ∀ c ∈ cs, isSeparator c = false := fun c hc =>
    not_isSeparator_of_isAlphanum (h.all c hc)
  rw [parts,List.splitOnP_eq_singleton hsep]
  simp [h.ne_nil]

/-- Parts put one after the other with dots between them. -/
def dotted (ps : List (List Char)) : List Char := ['.'].intercalate ps

theorem dotted_singleton (p : List Char) : dotted [p] = p := List.intercalate_singleton

theorem dotted_cons_cons (p q : List Char) (ps : List (List Char)) :
    dotted (p :: q :: ps) = p ++ '.' :: dotted (q :: ps) := by
  simp [dotted,List.intercalate_cons_cons]

theorem parts_dotted {ps : List (List Char)} (h : ∀ p ∈ ps, Alphanumeric p) :
    parts (dotted ps) = ps := by
  induction ps with
  | nil => rfl
  | cons p ps ih =>
    obtain ⟨hp,hps⟩ := List.forall_mem_cons.mp h
    cases ps with
    | nil =>
      rw [dotted_singleton]
      exact hp.parts_eq
    | cons q ps =>
      rw [dotted_cons_cons,parts_append_cons _ _ rfl,hp.parts_eq,ih hps]
      rfl

theorem mem_dotted {c : Char} {ps : List (List Char)} (h : c ∈ dotted ps) :
    c = '.' ∨ ∃ p ∈ ps, c ∈ p := by
  induction ps with
  | nil => cases h
  | cons p ps ih =>
    cases ps with
    | nil =>
      rw [dotted_singleton] at h
      exact .inr ⟨p,List.mem_cons_self,h⟩
    | cons q ps =>
      rw [dotted_cons_cons,List.mem_append,List.mem_cons] at h
      rcases h with h | h | h
      · exact .inr ⟨p,List.mem_cons_self,h⟩
      · exact .inl h
      · obtain hdot | ⟨r,hr,hc⟩ := ih h
        · exact .inl hdot
        · exact .inr ⟨r,List.mem_cons_of_mem p hr,hc⟩

theorem plus_not_mem_dotted {ps : List (List Char)} (h : ∀ p ∈ ps, Alphanumeric p) :
    '+' ∉ dotted ps := by
  intro hplus
  rcases mem_dotted hplus with hdot | ⟨p,hp,hc⟩
  · exact absurd hdot (by decide)
  · exact absurd ((h p hp).all '+' hc) (by decide)

theorem dropBuild_append {cs : List Char} (h : '+' ∉ cs) (ds : List Char) :
    dropBuild (cs ++ ds) = cs ++ dropBuild ds := by
  induction cs with
  | nil => rfl
  | cons c cs ih =>
    have hc : c ≠ '+' := fun hc => h (hc ▸ List.mem_cons_self)
    have hcs : '+' ∉ cs := fun hcs => h (List.mem_cons_of_mem c hcs)
    rw [List.cons_append,dropBuild,if_neg (by simp [hc]),ih hcs]
    rfl

theorem dropBuild_plus {cs : List Char} (h : '\n' ∉ cs) : dropBuild ('+' :: cs) = [] := by
  have hends : endsLine cs = true := by
    induction cs with
    | nil => rfl
    | cons c cs ih =>
      have hc : c ≠ '\n' := fun hc => h (hc ▸ List.mem_cons_self)
      rw [endsLine.eq_4 _ _ (fun hc' _ => hc hc') hc]
      exact ih fun hcs => h (List.mem_cons_of_mem c hcs)
  have hlast : cs.getLast? ≠ some '\n' := fun hlast => h (List.mem_of_getLast? hlast)
  simp [dropBuild,hends,lineEnd,hlast]

/-! ### Numbers -/

theorem digitChar_lt_digitChar {a b : Nat} (hab : a < b) (hb : b < 10) :
    Nat.digitChar a < Nat.digitChar b := by
  have ha := Nat.toNat_digitChar_of_lt_ten (hab.trans hb)
  have hb := Nat.toNat_digitChar_of_lt_ten hb
  rw [Char.lt_def,UInt32.lt_iff_toNat_lt]
  change (Nat.digitChar a).toNat < (Nat.digitChar b).toNat
  omega

/-- Of two numbers with as many digits the smaller one has the smaller text. -/
theorem toDigits_lt_toDigits {m n : Nat} (h : m < n)
    (hlen : (Nat.toDigits 10 m).length = (Nat.toDigits 10 n).length) :
    Nat.toDigits 10 m < Nat.toDigits 10 n := by
  induction n using Nat.strongRecOn generalizing m with
  | ind n ih =>
    rcases Nat.lt_or_ge n 10 with hn | hn
    · rw [Nat.toDigits_of_lt_base (h.trans hn),Nat.toDigits_of_lt_base hn]
      exact List.cons_lt_cons_iff.mpr (.inl (digitChar_lt_digitChar h hn))
    · have hm : 10 ≤ m := by
        by_contra hm
        rw [Nat.toDigits_of_lt_base (by omega),Nat.toDigits_of_base_le (by decide) hn,
          List.length_append] at hlen
        have hpos := Nat.length_toDigits_pos (b := 10) (n := n / 10)
        simp only [List.length_singleton] at hlen
        omega
      rw [Nat.toDigits_of_base_le (by decide) hm,Nat.toDigits_of_base_le (by decide) hn] at hlen ⊢
      have hinit : (Nat.toDigits 10 (m / 10)).length = (Nat.toDigits 10 (n / 10)).length := by
        simpa using hlen
      rcases Nat.lt_or_ge (m / 10) (n / 10) with hlt | hge
      · refine append_lt_append (ih (n / 10) (by omega) hlt hinit) fun e es he => ?_
        simp [he] at hinit
      · rw [show m / 10 = n / 10 by omega]
        have hlast : Nat.digitChar (m % 10) < Nat.digitChar (n % 10) :=
          digitChar_lt_digitChar (by omega) (by omega)
        exact List.append_left_lt (List.cons_lt_cons_iff.mpr (.inl hlast))

theorem isDigit_of_mem_toDigits {n : Nat} {c : Char} (h : c ∈ Nat.toDigits 10 n) :
    c.isDigit = true :=
  Nat.isDigit_of_mem_toDigits (by decide) (by decide) h

theorem alphanumeric_toDigits (n : Nat) : Alphanumeric (Nat.toDigits 10 n) where
  ne_nil := List.ne_nil_of_length_pos Nat.length_toDigits_pos
  all c hc := by rw [Char.isAlphanum,isDigit_of_mem_toDigits hc,Bool.or_true]

/-- A text that begins with a number has no lead. -/
theorem dropLead_toDigits_append (n : Nat) (cs : List Char) :
    dropLead (Nat.toDigits 10 n ++ cs) = Nat.toDigits 10 n ++ cs := by
  obtain ⟨d,ds,hds⟩ := List.exists_cons_of_ne_nil (alphanumeric_toDigits n).ne_nil
  have hd : d ≠ 'v' := by
    rintro rfl
    exact absurd (isDigit_of_mem_toDigits (hds ▸ List.mem_cons_self)) (by decide)
  rw [hds,List.cons_append]
  exact dropLead.eq_2 _ fun cs hcs => hd (List.cons.inj hcs).1

theorem pad_toDigits (n : Nat) : pad (Nat.toDigits 10 n) =
    List.replicate (width - (Nat.toDigits 10 n).length) ' ' ++ Nat.toDigits 10 n := by
  rw [pad,if_pos (List.all_eq_true.mpr fun c hc => isDigit_of_mem_toDigits hc)]

theorem solid_pad_toDigits (n : Nat) : Solid (pad (Nat.toDigits 10 n)) := by
  rw [pad_toDigits]
  exact .replicate_append _ (alphanumeric_toDigits n).solid

theorem pad_of_long {n : Nat} (h : 10000 ≤ n) : pad (Nat.toDigits 10 n) = Nat.toDigits 10 n := by
  have hlen : ¬ (Nat.toDigits 10 n).length ≤ 4 := by
    rw [Nat.length_toDigits_le_iff (by decide) (by decide)]
    omega
  rw [pad_toDigits,show width - (Nat.toDigits 10 n).length = 0 by unfold width; omega]
  rfl

/-- A number with room for a blank sorts before all that are larger. -/
theorem pad_lt_pad_of_short {m n : Nat} (h : m < n) (hm : m < 10000) :
    pad (Nat.toDigits 10 m) < pad (Nat.toDigits 10 n) := by
  have hlen : (Nat.toDigits 10 m).length ≤ 4 :=
    (Nat.length_toDigits_le_iff (by decide) (by decide)).mpr hm
  have hmono : (Nat.toDigits 10 m).length ≤ (Nat.toDigits 10 n).length :=
    (Nat.length_toDigits_le_iff (by decide) Nat.length_toDigits_pos).mpr
      (h.trans ((Nat.length_toDigits_le_iff (by decide) Nat.length_toDigits_pos).mp le_rfl))
  rw [pad_toDigits,pad_toDigits]
  rcases hmono.lt_or_eq with hlt | heq
  · -- The smaller one has a blank where the larger one has its first digit.
    obtain ⟨k,hk⟩ : ∃ k, width - (Nat.toDigits 10 m).length =
        width - (Nat.toDigits 10 n).length + (k + 1) :=
      ⟨width - (Nat.toDigits 10 m).length - (width - (Nat.toDigits 10 n).length) - 1,
        by unfold width; omega⟩
    obtain ⟨c,cs,hc,hlow,-⟩ := (alphanumeric_toDigits n).exists_cons
    rw [hk,List.replicate_add,List.append_assoc,hc,List.replicate_succ]
    exact List.append_left_lt
      (List.cons_lt_cons_iff.mpr (.inl (lt_of_lt_of_le (by decide : ' ' < '0') hlow)))
  · rw [heq]
    exact List.append_left_lt (toDigits_lt_toDigits h heq)

theorem pad_lt_pad {m n : Nat} (h : m < n) (hn : n < 100000) :
    pad (Nat.toDigits 10 m) < pad (Nat.toDigits 10 n) := by
  rcases Nat.lt_or_ge m 10000 with hm | hm
  · exact pad_lt_pad_of_short h hm
  · have hfive : ∀ k, 10000 ≤ k → k < 100000 → (Nat.toDigits 10 k).length = 5 := by
      intro k hk hk'
      have hle : (Nat.toDigits 10 k).length ≤ 5 :=
        (Nat.length_toDigits_le_iff (by decide) (by decide)).mpr hk'
      have hlt : ¬ (Nat.toDigits 10 k).length ≤ 4 := by
        rw [Nat.length_toDigits_le_iff (by decide) (by decide)]
        omega
      omega
    rw [pad_of_long hm,pad_of_long (hm.trans h.le)]
    exact toDigits_lt_toDigits h ((hfive m hm (h.trans hn)).trans (hfive n (hm.trans h.le) hn).symm)

end Version
end FlagEngine
