import FlagEngine.Proofs.Escaping
import FlagEngine.Proofs.Faults
import Mathlib.Data.Nat.Digits.Defs
import Mathlib.Tactic.Ring

/-! The variation that a URL asks for. However a list of fields is written into a query, and
whatever fragment follows, the fields that have a value are read back in their order; the first one
under the key of an experiment decides. An index is asked for by a decimal below the number of
variations, so whoever is forced by a URL is taken in. -/
namespace FlagEngine

namespace Text

/-- The number that decimal digits denote, whatever their scripts. -/
def Denotes (cs : List Char) (n : Nat) : Prop :=
  ∃ ds, cs.mapM decimalValue? = some ds ∧ Nat.ofDigits 10 ds.reverse = n

theorem foldl_eq_ofDigits (cs : List Char) (m : Nat) :
    cs.foldl (fun n? c => n?.bind fun n => (decimalValue? c).map (10 * n + ·)) (some m) =
      (cs.mapM decimalValue?).map fun ds => Nat.ofDigits 10 (ds.reverse ++ [m]) := by
  induction cs generalizing m with
  | nil => simp
  | cons c cs ih =>
    rw [List.foldl_cons,List.mapM_cons,Option.bind_some]
    cases hc : decimalValue? c with
    | none => rw [Option.map_none,foldl_none]; rfl
    | some d =>
      rw [Option.map_some,ih]
      cases cs.mapM decimalValue? with
      | none => rfl
      | some ds =>
        have hlead : Nat.ofDigits 10 (ds.reverse ++ [10 * m + d]) =
            Nat.ofDigits 10 ((d :: ds).reverse ++ [m]) := by
          rw [List.reverse_cons,List.append_assoc,Nat.ofDigits_append,Nat.ofDigits_append]
          simp only [List.singleton_append,Nat.ofDigits_cons,Nat.ofDigits_nil]
          ring
        exact congrArg some hlead

theorem decimal?_eq_some_iff {s : String} {n : Nat} :
    decimal? s = some n ↔ s ≠ "" ∧ Denotes s.toList n := by
  unfold decimal?
  by_cases h : s = ""
  · simp [h]
  · have hne : ¬ s.isEmpty = true := by simpa using h
    rw [if_neg hne,foldl_eq_ofDigits]
    simp [h,Denotes]

end Text

namespace Url

/-- Where the examples of a host live. -/
def exampleBase : List Char := "https://example.com/?".toList

theorem query_exampleBase {query fragment : List Char}
    (hquery : ∀ c ∈ query, c ≠ '#' ∧ isDropped c = false)
    (hfragment : fragment = [] ∨ fragment.head? = some '#') :
    Url.query (exampleBase ++ query ++ fragment) = .ok query := by
  have hclean : clean (exampleBase ++ query ++ fragment) =
      exampleBase ++ query ++ fragment.filter (!isDropped ·) := by
    have hkeep : query.filter (!isDropped ·) = query :=
      List.filter_eq_self.mpr fun c hc => by rw [(hquery c hc).2]; rfl
    have hbase : ∀ cs, clean (exampleBase ++ cs) = exampleBase ++ cs.filter (!isDropped ·) :=
      fun cs => rfl
    rw [List.append_assoc,hbase,List.filter_append,hkeep,List.append_assoc]
  have hbefore : (query ++ fragment.filter (!isDropped ·)).takeWhile (· != '#') = query := by
    rw [List.takeWhile_append_of_pos fun c hc => by simpa using (hquery c hc).1]
    obtain rfl | hhead := hfragment
    · simp
    · obtain ⟨rest,rfl⟩ := List.head?_eq_some_iff.mp hhead
      simp [isDropped]
  have hrest : ∀ cs, authority (afterScheme (exampleBase ++ cs)) =
      ("example.com".toList,"/?".toList ++ cs) := fun cs => rfl
  have hpart : ∀ cs, queryPart ("/?".toList ++ cs) = cs.takeWhile (· != '#') := fun cs => rfl
  have hhost : isAuthority "example.com".toList = true := by decide
  rw [Url.query,hclean,List.append_assoc,hrest]
  dsimp only
  rw [if_pos hhost,hpart,hbefore]

end Url

namespace Query

/-- The ways to write a field. -/
def WritesField (field : String × String) (cs : List Char) : Prop :=
  ∃ name value, Writes field.1.toList name ∧ Writes field.2.toList value ∧ cs = name ++ '=' :: value

/-- The ways to write fields into a URL, with whatever fragment. -/
def Carries (url : String) (fields : List (String × String)) : Prop :=
  ∃ written fragment, List.Forall₂ WritesField fields written ∧
    (fragment = [] ∨ fragment.head? = some '#') ∧
    url.toList = Url.exampleBase ++ ['&'].intercalate written ++ fragment

theorem field?_of_writes {field : String × String} {cs : List Char} (h : WritesField field cs) :
    field? cs = if field.2 = "" then none else some (field.1.toList,field.2.toList) := by
  obtain ⟨name,value,hname,hvalue,rfl⟩ := h
  have hspan : (name ++ '=' :: value).span (· != '=') = (name,'=' :: value) := by
    refine span_append (fun c hc => ?_) (by simp)
    obtain rfl | rfl | hc := hname.mem c hc
    · rfl
    · rfl
    · have hne : c ≠ '=' := by rintro rfl; cases hc
      simpa using hne
  unfold field?
  rw [hspan]
  cases value with
  | nil =>
    have hempty : field.2 = "" := by simpa using hvalue.eq_nil_iff.mp rfl
    rw [if_pos hempty]
  | cons c value =>
    have hsome : field.2 ≠ "" := by
      intro hempty
      have hnil := hvalue.eq_nil_iff.mpr (by simp [hempty])
      cases hnil
    rw [if_neg hsome]
    simp only [decode_of_writes hname,decode_of_writes hvalue]

theorem ne_of_mem_field {field : String × String} {cs : List Char} (h : WritesField field cs) :
    ∀ c ∈ cs, c ≠ '&' ∧ c ≠ '#' ∧ Url.isDropped c = false := by
  obtain ⟨name,value,hname,hvalue,rfl⟩ := h
  have hwritten : ∀ c, c = '%' ∨ c = '+' ∨ isReserved c = false →
      c ≠ '&' ∧ c ≠ '#' ∧ Url.isDropped c = false := by
    rintro c (rfl | rfl | hc)
    · decide
    · decide
    · refine ⟨?_,?_,?_⟩
      · rintro rfl; cases hc
      · rintro rfl; cases hc
      · simp_all [isReserved,Url.isDropped]
  intro c hc
  obtain hc | hc := List.mem_append.mp hc
  · exact hwritten c (hname.mem c hc)
  · obtain rfl | hc := List.mem_cons.mp hc
    · decide
    · exact hwritten c (hvalue.mem c hc)

theorem forall_mem_intercalate {α : Type} {P : α → Prop} {sep : List α} (hsep : ∀ c ∈ sep, P c) :
    ∀ {xs : List (List α)}, (∀ x ∈ xs, ∀ c ∈ x, P c) → ∀ c ∈ sep.intercalate xs, P c
  | [], _ => by simp
  | [x], h => by simpa using h
  | x :: y :: xs, h => by
    rw [List.forall_mem_cons] at h
    intro c hc
    rw [List.intercalate_cons_cons,List.mem_append,List.mem_append] at hc
    obtain (hc | hc) | hc := hc
    · exact h.1 c hc
    · exact hsep c hc
    · exact forall_mem_intercalate hsep h.2 c hc

variable {fields : List (String × String)} {written : List (List Char)}

theorem forall_mem_written (h : List.Forall₂ WritesField fields written) :
    ∀ cs ∈ written, ∃ field ∈ fields, WritesField field cs := by
  induction h with
  | nil => simp
  | cons hfield _ ih =>
    rw [List.forall_mem_cons]
    refine ⟨⟨_,List.mem_cons_self,hfield⟩,fun cs hcs => ?_⟩
    obtain ⟨field,hmem,hwrites⟩ := ih cs hcs
    exact ⟨field,List.mem_cons_of_mem _ hmem,hwrites⟩

theorem fields_of_writes (h : List.Forall₂ WritesField fields written) :
    Query.fields (['&'].intercalate written) =
      (fields.filter (·.2 != "")).map fun f => (f.1.toList,f.2.toList) := by
  have hread : written.filterMap field? =
      (fields.filter (·.2 != "")).map fun f => (f.1.toList,f.2.toList) := by
    induction h with
    | nil => rfl
    | @cons field cs _ _ hfield _ ih =>
      rw [List.filterMap_cons,field?_of_writes hfield,List.filter_cons]
      by_cases hempty : field.2 = ""
      · simp [hempty,ih]
      · simp [hempty,ih]
  rw [← hread,Query.fields]
  by_cases hnil : written = []
  · rw [hnil]
    rfl
  · have hamp : ∀ cs ∈ written, '&' ∉ cs := by
      intro cs hcs hmem
      obtain ⟨field,-,hfield⟩ := forall_mem_written h cs hcs
      exact (ne_of_mem_field hfield '&' hmem).1 rfl
    exact congrArg (List.filterMap field?) (List.splitOn_intercalate '&' hamp hnil)

theorem query_of_writes (h : List.Forall₂ WritesField fields written) {fragment : List Char}
    (hfragment : fragment = [] ∨ fragment.head? = some '#') :
    Url.query (Url.exampleBase ++ ['&'].intercalate written ++ fragment) =
      .ok (['&'].intercalate written) := by
  have hamp : ∀ c ∈ ['&'], c ≠ '#' ∧ Url.isDropped c = false :=
    List.forall_mem_singleton.mpr ⟨by decide,rfl⟩
  refine Url.query_exampleBase (forall_mem_intercalate hamp fun cs hcs c hc => ?_) hfragment
  obtain ⟨field,-,hfield⟩ := forall_mem_written h cs hcs
  exact (ne_of_mem_field hfield c hc).2

theorem index?_of_length_le {value : String} (h : value.length ≤ Number.maxDigits) (count : Nat) :
    ∃ i?, index? value.toList count = .ok i? ∧
      ∀ i, i? = some i ↔ value ≠ "" ∧ Text.Denotes value.toList i ∧ i < count := by
  unfold index?
  rw [String.ofList_toList]
  cases hn : Text.decimal? value with
  | none =>
    refine ⟨none,rfl,fun i => iff_of_false nofun ?_⟩
    rintro ⟨hne,hi,-⟩
    rw [Text.decimal?_eq_some_iff.mpr ⟨hne,hi⟩] at hn
    cases hn
  | some n =>
    have hshort : ¬ Number.maxDigits < value.toList.length := by
      rw [String.length_toList]
      exact Nat.not_lt.mpr h
    dsimp only
    rw [if_neg hshort]
    refine ⟨_,rfl,fun i => ?_⟩
    rw [← and_assoc,← Text.decimal?_eq_some_iff,hn,Option.some.injEq]
    split <;> simp <;> grind

/-- The value of the first field under a name that has a value. -/
def valueOf? (fields : List (String × String)) (name : String) : Option String :=
  (fields.find? fun f => f.1 == name && f.2 != "").map (·.2)

theorem find?_fields (fields : List (String × String)) (key : String) :
    (((fields.filter (·.2 != "")).map fun f => (f.1.toList,f.2.toList)).find?
      (·.1 == key.toList)).map (·.2) = (valueOf? fields key).map String.toList := by
  have hname : ∀ f : String × String, (f.1.toList == key.toList) = (f.1 == key) := by
    intro f
    rw [Bool.eq_iff_iff,beq_iff_eq,beq_iff_eq,String.toList_inj]
  simp only [valueOf?,List.find?_map,List.find?_filter,Option.map_map,Function.comp_def,hname,
    Bool.and_comm,Bool.decide_eq_true,Bool.decide_and]

theorem override_of_carries {url : String} (h : Carries url fields)
    (hshort : ∀ f ∈ fields, f.2.length ≤ Number.maxDigits) (key : String) (count : Nat) :
    ∃ i?, override key url count = .ok i? ∧ ∀ i, i? = some i ↔
      ∃ value, valueOf? fields key = some value ∧ Text.Denotes value.toList i ∧ i < count := by
  obtain ⟨written,fragment,hwritten,hfragment,hurl⟩ := h
  have hquery : Url.query url.toList = .ok (['&'].intercalate written) :=
    hurl ▸ query_of_writes hwritten hfragment
  have hfind := find?_fields fields key
  rw [override_of_query hquery,fields_of_writes hwritten]
  cases hvalue : valueOf? fields key with
  | none =>
    rw [hvalue,Option.map_none,Option.map_eq_none_iff] at hfind
    rw [hfind]
    exact ⟨none,rfl,by simp⟩
  | some value =>
    rw [hvalue,Option.map_some,Option.map_eq_some_iff] at hfind
    obtain ⟨⟨name,cs⟩,hfound,rfl⟩ := hfind
    obtain ⟨f,hf,rfl⟩ := Option.map_eq_some_iff.mp hvalue
    obtain ⟨i?,hi,hspec⟩ := index?_of_length_le (hshort f (List.mem_of_find?_eq_some hf)) count
    rw [hfound]
    refine ⟨i?,hi,fun i => (hspec i).trans ?_⟩
    have hkept := List.find?_some hf
    simp only [Bool.and_eq_true,bne_iff_ne] at hkept
    simp [hkept.2]

theorem lt_of_override {key url : String} {count i : Nat}
    (h : override key url count = .ok (some i)) : i < count := by
  cases hquery : Url.query url.toList with
  | error x => rw [override_of_malformed hquery] at h; cases h
  | ok query =>
    rw [override_of_query hquery] at h
    split at h
    · unfold index? at h
      split at h
      · cases h
      · split at h
        · cases h
        · split at h
          · next hlt => cases h; exact hlt
          · cases h
    · cases h

end Query

theorem Experiment.assign_of_override {ν σ : Type} [Fraction ν] {e : Experiment ν} {o : Options}
    {i : Nat} (hcount : 2 ≤ e.count) (henabled : o.enabled = true)
    (h : Query.override e.key o.url e.count = .ok (some i)) (store? : Option (Store σ)) {a : Value}
    (hwritten : a.overlongAt e.hashAttribute = false) (w : World σ) :
    ∃ x, (e.assign store? o a w).1 = .ok (.included x) ∧ x.index = i ∧ x.origin.isForced = true := by
  have hentry : e.entry o a = .ok (.forced i) := by
    have hcount' : ¬ e.count < 2 := by omega
    have hforced : e.forcedBy o = .ok (some (i : Int)) := by simp only [forcedBy,h]
    simp only [entry,hwritten,hcount',henabled,hforced,Bool.false_eq_true,Bool.not_true,if_false]
  obtain ⟨x,hx⟩ := e.exists_takeIn_of_lt (.forced (e.subject? a)) (Query.lt_of_override h)
  obtain ⟨hindex,horigin,-⟩ := takeIn_eq_included hx
  refine ⟨x,?_,by omega,by rw [horigin]; rfl⟩
  simp only [assign,hentry,settle,hx]

theorem Experiment.assign_of_overlong {ν σ : Type} [Fraction ν] {e : Experiment ν} {a : Value}
    (h : a.overlongAt e.hashAttribute = true) (store? : Option (Store σ)) (o : Options)
    (w : World σ) : (e.assign store? o a w).1 = .error .overlongInteger := by
  have hentry : e.entry o a = .error .subject := if_pos h
  simp only [assign,hentry,Stop.fault]

theorem Query.exists_carries (fields : List (String × String)) : ∃ url, Carries url fields := by
  have hwritten : ∃ written, List.Forall₂ WritesField fields written := by
    induction fields with
    | nil => exact ⟨[],.nil⟩
    | cons f fields ih =>
      obtain ⟨written,h⟩ := ih
      obtain ⟨name,hname⟩ := exists_writes f.1.toList
      obtain ⟨value,hvalue⟩ := exists_writes f.2.toList
      exact ⟨_,.cons ⟨name,value,hname,hvalue,rfl⟩ h⟩
  obtain ⟨written,h⟩ := hwritten
  exact ⟨.ofList (Url.exampleBase ++ ['&'].intercalate written ++ []),written,[],h,.inl rfl,
    String.toList_ofList⟩

/-- Every list of fields can be written into a URL. However it is written, the URL asks for an index
exactly if the first field under the key that has a value has a decimal below the number of
variations, and for nothing otherwise. Whatever the URL, an index that it asks for is one of the
variations, and whoever it is asked for is taken in with it; only a hash attribute that cannot be
written, which is read before the URL, ends the assignment without an outcome. -/
theorem override_reads_what_was_written {ν σ : Type} [Fraction ν] (fields : List (String × String))
    (key : String) (count : Nat) :
    (∃ url, Query.Carries url fields) ∧
    (∀ url, Query.Carries url fields → (∀ f ∈ fields, f.2.length ≤ Number.maxDigits) →
      ∃ i?, Query.override key url count = .ok i? ∧ ∀ i, i? = some i ↔
        ∃ value, Query.valueOf? fields key = some value ∧ Text.Denotes value.toList i ∧ i < count) ∧
    (∀ url i, Query.override key url count = .ok (some i) → i < count) ∧
    ∀ (e : Experiment ν) (o : Options) (i : Nat), 2 ≤ e.count → o.enabled = true →
      Query.override e.key o.url e.count = .ok (some i) →
      ∀ (store? : Option (Store σ)) (a : Value) (w : World σ),
        (a.overlongAt e.hashAttribute = false →
          ∃ x, (e.assign store? o a w).1 = .ok (.included x) ∧ x.index = i ∧
            x.origin.isForced = true) ∧
        (a.overlongAt e.hashAttribute = true →
          (e.assign store? o a w).1 = .error .overlongInteger) :=
  ⟨Query.exists_carries fields,
    fun _ h hshort => Query.override_of_carries h hshort key count,
    fun _ _ h => Query.lt_of_override h,
    fun _ _ _ hcount henabled h store? _ w =>
      ⟨fun hwritten => Experiment.assign_of_override hcount henabled h store? hwritten w,
        fun hlong => Experiment.assign_of_overlong hlong store? _ w⟩⟩

section Example

/-- A key that divides queries, first without a value, then with an Arabic digit. -/
def Query.salt : List (String × String) := [("a&b",""),("a&b","٢"),("a&b","0")]

def Query.saltUrl : String := "https://example.com/?a%26b=&a%26b=%d9%A2&a%26b=0#a%26b=1"

theorem Query.carries_salt : Carries saltUrl salt := by
  have hamp : Escapes (Utf8.encode ['&']) "%26".toList := .cons (.inl rfl) (.inl rfl) .nil
  have hname : Writes "a&b".toList "a%26b".toList :=
    .plain rfl (.escaped hamp (.plain rfl .nil))
  have htwo : Escapes (Utf8.encode ['٢']) "%d9%A2".toList :=
    .cons (.inl rfl) (.inl rfl) (.cons (.inr rfl) (.inl rfl) .nil)
  have hvalue : Writes "٢".toList "%d9%A2".toList := .escaped htwo .nil
  exact ⟨["a%26b=".toList,"a%26b=%d9%A2".toList,"a%26b=0".toList],"#a%26b=1".toList,
    .cons ⟨_,[],hname,.nil,rfl⟩ (.cons ⟨_,_,hname,hvalue,rfl⟩
      (.cons ⟨_,['0'],hname,.plain rfl .nil,rfl⟩ .nil)),.inr rfl,rfl⟩

theorem override_reads_an_arabic_digit :
    let e : Experiment Rat :=
      { Experiment.ofVariations "a&b" [.str "x",.str "y",.str "z"] with active := false }
    let o : Options := { Options.default with url := Query.saltUrl }
    Query.Carries Query.saltUrl Query.salt ∧ (∀ f ∈ Query.salt, f.2.length ≤ Number.maxDigits) ∧
      Query.override "a&b" Query.saltUrl 3 = .ok (some 2) ∧
      ∃ x, (e.assign (σ := Memory) none o (.map []) ⟨[],[],[]⟩).1 = .ok (.included x) ∧
        x.index = 2 := by
  intro e o
  have hshort : ∀ f ∈ Query.salt, f.2.length ≤ Number.maxDigits := by decide
  obtain ⟨-,hread,-,htaken⟩ := override_reads_what_was_written (ν := Rat) (σ := Memory) Query.salt
    "a&b" 3
  obtain ⟨i?,hoverride,hi⟩ := hread _ Query.carries_salt hshort
  obtain rfl : i? = some 2 := (hi 2).mpr ⟨"٢",rfl,⟨[2],rfl,rfl⟩,by decide⟩
  obtain ⟨x,hx,hindex,-⟩ := (htaken e o 2 (by decide) rfl hoverride none (.map []) ⟨[],[],[]⟩).1 rfl
  exact ⟨Query.carries_salt,hshort,hoverride,x,hx,hindex⟩

end Example
end FlagEngine
