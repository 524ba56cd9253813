import FlagEngine.Catalog.Intake
import FlagEngine.Proofs.Malformed
import FlagEngine.Proofs.Records
import FlagEngine.Proofs.Stumbling

/-! Loading a catalog from a payload. Whether it has the shape of a catalog is settled before any
rule is read, so rules have no say in it; after that every rule becomes a rule at its place, an
invalid one if need be, and only a trap in the condition of a rule ends the loading. -/
namespace FlagEngine

namespace Checked

variable {α β : Type}

theorem map_eq_good_iff (g : α → β) (x : Checked α) (b : β) :
    g <$> x = .good b ↔ ∃ a, x = .good a ∧ g a = b := by
  show map g x = .good b ↔ _
  cases x <;> simp [map]

theorem seq_eq_good_iff (g : Checked (α → β)) (x : Checked α) (b : β) :
    g <*> x = .good b ↔ ∃ h a, g = .good h ∧ x = .good a ∧ h a = b := by
  show ap g x = .good b ↔ _
  cases g <;> cases x <;> simp [ap]

theorem inside_eq_good_iff (name : String) (x : Checked α) (a : α) :
    x.inside name = .good a ↔ x = .good a := by
  cases x <;> simp [inside]

end Checked

/-- The raw rules of a feature, none if it has no list of them. -/
def Value.rawRules (v : Value) : List Value := ((v.field? "rules").bind Intake.sequence?).getD []

namespace Intake

variable {α : Type}

theorem items_anything (i : Nat) (xs : List Value) : Checked.items anything i xs = .good xs := by
  induction xs generalizing i with
  | nil => rfl
  | cons x xs ih =>
    rw [Checked.items,ih]
    rfl

theorem record_eq_good_iff (g : Entries → Checked α) (v : Value) (x : α) :
    record g v = .good x ↔ ∃ es, v = .map es ∧ g es = .good x := by
  unfold record
  split
  · simp
  · next hno =>
    refine iff_of_false (by simp [Checked.wrong]) ?_
    rintro ⟨es,rfl,-⟩
    exact hno es rfl

theorem named?_singleton (es : Entries) (name : String) :
    named? es [name] = (es.find? (.str name)).map (name,·) := by
  unfold named?
  cases es.find? (.str name) <;> rfl

theorem field_eq_good_iff (es : Entries) (name : String) (absent : α) (g : Value → Checked α)
    (x : α) : field es [name] absent g = .good x ↔
      (es.find? (.str name) = none ∧ absent = x) ∨
        ∃ v, es.find? (.str name) = some v ∧ g v = .good x := by
  unfold field
  rw [named?_singleton]
  rcases es.find? (.str name) with _ | v
  · simp
  · simp [Checked.inside_eq_good_iff]

theorem rules_of_rawFeature {v : Value} {raw : RawFeature} (h : rawFeature v = .good raw) :
    raw.rules.getD [] = v.rawRules := by
  obtain ⟨es,rfl,hfields⟩ := (record_eq_good_iff _ v raw).mp h
  obtain ⟨g,rules,hg,hrules,rfl⟩ := (Checked.seq_eq_good_iff _ _ _).mp hfields
  obtain ⟨default,-,rfl⟩ := (Checked.map_eq_good_iff _ _ _).mp hg
  unfold Value.rawRules Value.field?
  dsimp only
  obtain ⟨hnone,rfl⟩ | ⟨w,hw,hlist⟩ := (field_eq_good_iff es _ _ _ rules).mp hrules
  · rw [hnone]
    rfl
  · rw [hw]
    unfold nullable at hlist
    split at hlist
    · obtain rfl := Checked.good.inj hlist
      rfl
    · obtain ⟨xs,hxs,rfl⟩ := (Checked.map_eq_good_iff _ _ _).mp hlist
      unfold list at hxs
      split at hxs
      · next ys hys =>
        rw [items_anything] at hxs
        obtain rfl := Checked.good.inj hxs
        simp [hys]
      · cases hxs

theorem keyText_str (k : String) : keyText (.str k) = .good k := by
  simp [keyText,string,text?,Checked.ofOption,Checked.inside]

/-- Entries under texts are read in order, each under its key. -/
theorem forall₂_of_entries {g : Value → Checked α} {es : List (String × Value)}
    {xs : List (String × α)} (h : entries g (es.map fun e => (.str e.1,e.2)) = .good xs) :
    List.Forall₂ (fun e x => e.1 = x.1 ∧ g e.2 = .good x.2) es xs := by
  induction es generalizing xs with
  | nil =>
    obtain rfl := Checked.good.inj h
    exact .nil
  | cons e es ih =>
    obtain ⟨k,v⟩ := e
    obtain ⟨cons,rest,hcons,hrest,rfl⟩ := (Checked.seq_eq_good_iff _ _ _).mp h
    obtain ⟨entry,hentry,rfl⟩ := (Checked.map_eq_good_iff _ _ _).mp hcons
    obtain ⟨pair,x,hpair,hx,rfl⟩ := (Checked.seq_eq_good_iff _ _ _).mp hentry
    rw [keyText_str] at hpair
    obtain rfl := Checked.good.inj hpair
    exact .cons ⟨rfl,(Checked.inside_eq_good_iff _ _ _).mp hx⟩ (ih hrest)

theorem putText_of_not_mem {key : String} {x : α} {xs : List (String × α)}
    (h : key ∉ xs.map (·.1)) : putText key x xs = xs ++ [(key,x)] := by
  induction xs with
  | nil => rfl
  | cons y xs ih =>
    obtain ⟨k,b⟩ := y
    rw [List.map_cons,List.mem_cons,not_or] at h
    rw [putText,if_neg (Ne.symm h.1),ih h.2]
    rfl

/-- Distinct keys stay as they are. -/
theorem foldl_putText {xs ys : List (String × α)} (h : ((ys ++ xs).map (·.1)).Nodup) :
    xs.foldl (fun m e => putText e.1 e.2 m) ys = ys ++ xs := by
  induction xs generalizing ys with
  | nil => simp
  | cons x xs ih =>
    have hx : x.1 ∉ ys.map (·.1) := by
      rw [List.map_append,List.map_cons] at h
      exact fun hmem => (List.nodup_append.mp h).2.2 _ hmem _ List.mem_cons_self rfl
    rw [List.foldl_cons,putText_of_not_mem hx,ih (by rwa [List.append_assoc])]
    simp

theorem forall₂_of_dictionary {g : Value → Checked α} {es : List (String × Value)}
    (hes : (es.map (·.1)).Nodup) {xs : List (String × α)} (h : dictionary g (.obj es) = .good xs) :
    List.Forall₂ (fun e x => e.1 = x.1 ∧ g e.2 = .good x.2) es xs := by
  obtain ⟨ys,hys,rfl⟩ := (Checked.map_eq_good_iff _ _ _).mp h
  have hforall := forall₂_of_entries hys
  have hkeys : ys.map (·.1) = es.map (·.1) := by
    clear hys h
    induction hforall with
    | nil => rfl
    | cons hxy _ ih => rw [List.map_cons,List.map_cons,hxy.1,ih (List.nodup_cons.mp hes).2]
  rw [foldl_putText (by rwa [List.nil_append,hkeys])]
  exact hforall

end Intake

/-- Ended in a fault with a reason, or in a result as it should be. -/
inductive EndedAs {α : Type} (P : Fault → Prop) (Q : α → Prop) : Except Fault α → Prop
  | fault {f : Fault} (h : P f) : EndedAs P Q (.error f)
  | ok {x : α} (h : Q x) : EndedAs P Q (.ok x)

/-- A trapped rule stands among the raw rules. -/
def Rule.TrappedAmong (vs : List Value) (limit : Int) (f : Fault) : Prop :=
  ∃ v ∈ vs, Trapped v limit f

/-- Every raw rule becomes a rule at its place, unless one of them is trapped. -/
theorem Rule.compileAll_endedAs (k : String) (limit : Int) (vs : List Value) :
    EndedAs (TrappedAmong vs limit) (List.Forall₂ (fun v r => (compile v k limit).1 = .ok r) vs)
      (compileAll k limit vs).1 := by
  induction vs with
  | nil => exact .ok .nil
  | cons v vs ih =>
    unfold compileAll
    rcases hv : compile v k limit with ⟨f | r,notes⟩
    · have htrapped : Trapped v limit f := (compile_eq_error_iff v k limit f).mp (by rw [hv])
      exact .fault ⟨v,List.mem_cons_self,htrapped⟩
    · dsimp only
      rcases hvs : compileAll k limit vs with ⟨x,more⟩
      rw [hvs] at ih
      cases ih with
      | fault h =>
        obtain ⟨u,hu,htrapped⟩ := h
        exact .fault ⟨u,List.mem_cons_of_mem v hu,htrapped⟩
      | ok hall => exact .ok (.cons (by rw [hv]) hall)

/-- A feature compiled from an entry of the payload: its key, and a rule for each raw rule. -/
structure Feature.CompiledFrom (limit : Int) (e : String × Value) (f : Feature Float) : Prop where
  key_eq : f.key = e.1
  rules : List.Forall₂ (fun v r => (Rule.compile v f.key limit).1 = .ok r) e.2.rawRules f.rules

theorem Feature.compile_endedAs {k : String} {v : Value} {raw : RawFeature}
    (h : Intake.rawFeature v = .good raw) (limit : Int) :
    EndedAs (Rule.TrappedAmong v.rawRules limit) (CompiledFrom limit (k,v))
      (compile k raw limit).1 := by
  have hrules := Rule.compileAll_endedAs k limit v.rawRules
  unfold compile
  rw [Intake.rules_of_rawFeature h]
  rcases hall : Rule.compileAll k limit v.rawRules with ⟨x,notes⟩
  rw [hall] at hrules
  cases hrules with
  | fault h => exact .fault h
  | ok h => exact .ok ⟨rfl,h⟩

theorem Catalog.compileAll_endedAs {es : List (String × Value)}
    {raws : List (String × RawFeature)}
    (h : List.Forall₂ (fun e x => e.1 = x.1 ∧ Intake.rawFeature e.2 = .good x.2) es raws)
    (limit : Int) :
    EndedAs (fun f => ∃ e ∈ es, Rule.TrappedAmong e.2.rawRules limit f)
      (List.Forall₂ (Feature.CompiledFrom limit) es) (compileAll limit raws).1 := by
  induction h with
  | nil => exact .ok .nil
  | @cons e x es raws hex _ ih =>
    obtain ⟨k,raw⟩ := x
    obtain ⟨k',v⟩ := e
    obtain ⟨rfl,hraw⟩ : k' = k ∧ Intake.rawFeature v = .good raw := hex
    have hfeature := Feature.compile_endedAs (k := k') hraw limit
    unfold compileAll
    rcases hcompile : Feature.compile k' raw limit with ⟨x,notes⟩
    rw [hcompile] at hfeature
    cases hfeature with
    | fault h => exact .fault ⟨_,List.mem_cons_self,h⟩
    | ok hfrom =>
      dsimp only
      rcases hraws : compileAll limit raws with ⟨y,more⟩
      rw [hraws] at ih
      cases ih with
      | fault h =>
        obtain ⟨e,he,htrapped⟩ := h
        exact .fault ⟨e,List.mem_cons_of_mem _ he,htrapped⟩
      | ok hall => exact .ok (.cons hfrom hall)

namespace Catalog

/-- The entries under which a payload has its features. -/
def definitions (payload : Value) : Entries :=
  match payload with
  | .map es =>
    match Entries.find? (wrapped es) (.str "features") with
    | some (.map fs) => fs
    | _ => []
  | _ => []

/-- A payload that comes to no sealed features, its features standing under distinct texts. -/
structure Open (payload : Value) (es : List (String × Value)) : Prop where
  unsealed : ∀ fs raw, payload = .map fs → Intake.rawCatalog (wrapped fs) = .good raw →
    raw.sealedFeatures = none
  definitions_eq : definitions payload = es.map fun e => (.str e.1,e.2)
  nodup : (es.map (·.1)).Nodup

/-- Where nothing is sealed there are no sealed features. -/
theorem sealedFeatures_of_absent {es : Entries} {raw : RawCatalog}
    (h : Intake.rawCatalog es = .good raw)
    (hno : Intake.named? es ["encryptedFeatures","encrypted_features"] = none) :
    raw.sealedFeatures = none := by
  obtain ⟨g,date,hg,-,rfl⟩ := (Checked.seq_eq_good_iff _ _ _).mp h
  obtain ⟨g',sealedFeatures,hg',hsealed,rfl⟩ := (Checked.seq_eq_good_iff _ _ _).mp hg
  obtain ⟨features,-,rfl⟩ := (Checked.map_eq_good_iff _ _ _).mp hg'
  unfold Intake.field at hsealed
  rw [hno] at hsealed
  exact (Checked.good.inj hsealed).symm

theorem forall₂_of_rawCatalog {fs : Entries} {raw : RawCatalog} {es : List (String × Value)}
    (h : Intake.rawCatalog (wrapped fs) = .good raw)
    (hes : definitions (.map fs) = es.map fun e => (.str e.1,e.2)) (hnodup : (es.map (·.1)).Nodup) :
    List.Forall₂ (fun e x => e.1 = x.1 ∧ Intake.rawFeature e.2 = .good x.2) es raw.features := by
  obtain ⟨g,date,hg,-,rfl⟩ := (Checked.seq_eq_good_iff _ _ _).mp h
  obtain ⟨g',sealedFeatures,hg',-,rfl⟩ := (Checked.seq_eq_good_iff _ _ _).mp hg
  obtain ⟨features,hfeatures,rfl⟩ := (Checked.map_eq_good_iff _ _ _).mp hg'
  unfold definitions at hes
  dsimp only at hes ⊢
  obtain ⟨hnone,rfl⟩ | ⟨w,hw,hdictionary⟩ :=
    (Intake.field_eq_good_iff _ _ _ _ features).mp hfeatures
  · rw [hnone] at hes
    obtain rfl : es = [] := by simpa using hes.symm
    exact .nil
  · rw [hw] at hes
    cases w with
    | map ws =>
      have hobj : Value.map ws = .obj es := congrArg Value.map hes
      rw [hobj] at hdictionary
      exact Intake.forall₂_of_dictionary hnodup hdictionary
    | _ => cases hdictionary

theorem readBy_of_good {es : Entries} {raw : RawCatalog}
    (h : Intake.rawCatalog (wrapped es) = .good raw) (json : Json.Reader) (key : Option String)
    (limit : Int) :
    readBy json (.map es) key limit =
      match raw.sealedFeatures with
      | some s => readSealed json s key limit
      | none => compile limit raw.features := by
  cases hsealed : raw.sealedFeatures <;> simp only [readBy,h,hsealed]

theorem readBy_of_bad {es : Entries} {wrong : List Location}
    (h : Intake.rawCatalog (wrapped es) = .bad wrong) (json : Json.Reader) (key : Option String)
    (limit : Int) : readBy json (.map es) key limit = .ofError (.catalogInvalid wrong) := by
  simp only [readBy,h]

theorem readSealed_of_unsealed {s text : String} {key : String} (hkey : key.isEmpty = false)
    (h : Cipher.unseal? s key = some text) (json : Json.Reader) (limit : Int) :
    readSealed json s (some key) limit =
      match json text with
      | .error .malformed => .ofError .unsealedNotJson
      | .error (.fault f) => .ofFault f
      | .ok features => readFeatures features limit := by
  rcases hread : json text with (_ | _) | features <;>
    simp only [readSealed,hkey,Bool.false_eq_true,if_false,h,hread]

theorem read_cases {payload : Value} {es : List (String × Value)} (h : Open payload es)
    (key : Option String) (limit : Int) :
    (∃ e, (read payload key limit).1 = .error (.error e) ∧ e.code = "CATALOG_VALIDATION_ERROR") ∨
      (∃ f, (read payload key limit).1 = .error (.fault f) ∧
        ∃ e ∈ es, Rule.TrappedAmong e.2.rawRules limit f) ∨
      ∃ c, (read payload key limit).1 = .ok c ∧
        List.Forall₂ (Feature.CompiledFrom limit) es c.features := by
  unfold read readBy
  split
  · next fs =>
    rcases hraw : Intake.rawCatalog (wrapped fs) with raw | wrong
    · right
      dsimp only
      rw [h.unsealed fs raw rfl hraw]
      dsimp only [compile]
      have hcompile :=
        compileAll_endedAs (forall₂_of_rawCatalog hraw h.definitions_eq h.nodup) limit
      rcases hall : compileAll limit raw.features with ⟨x,notes⟩
      rw [hall] at hcompile
      cases hcompile with
      | fault h => exact .inl ⟨_,rfl,h⟩
      | ok h => exact .inr ⟨_,rfl,h⟩
    · exact .inl ⟨_,rfl,rfl⟩
  · exact .inl ⟨_,rfl,rfl⟩

end Catalog

namespace Value

/-- The same entry, but for a value under certain keys. -/
structure AlteredEntry (P : Scalar → Prop) (R : Value → Value → Prop) (e e' : Scalar × Value) :
    Prop where
  key_eq : e.1 = e'.1
  value : e.2 = e'.2 ∨ P e.1 ∧ R e.2 e'.2

/-- The same value, or the same mapping but for values under certain keys. -/
inductive Altered (P : Scalar → Prop) (R : Value → Value → Prop) : Value → Value → Prop
  | same (v : Value) : Altered P R v v
  | map {es es' : Entries} (h : List.Forall₂ (AlteredEntry P R) es es') :
    Altered P R (.map es) (.map es')

theorem sameField_of_altered {P : Scalar → Prop} {R : Value → Value → Prop} {es es' : Entries}
    (h : List.Forall₂ (AlteredEntry P R) es es') :
    List.Forall₂ (Entries.SameField fun name v v' => v = v' ∨ P (.str name) ∧ R v v') es es' := by
  refine h.imp fun e e' hee => ⟨hee.key_eq,fun name hname => ?_⟩
  rw [← hname]
  exact hee.value

end Value

namespace Intake

open Value Checked

variable {α : Type} {P : Scalar → Prop} {R : Value → Value → Prop} {es es' : Entries}

theorem field_of_altered (h : List.Forall₂ (AlteredEntry P R) es es') (names : List String)
    (hnames : ∀ name ∈ names, ¬ P (.str name)) (absent : α) (g : Value → Checked α) :
    field es names absent g = field es' names absent g := by
  refine Alike.eq (field_alike (sameField_of_altered h) names rfl fun name hname v v' hv => ?_)
  obtain rfl := hv.resolve_right fun hP => hnames name hname hP.1
  exact Alike.refl (fun _ => rfl) (g v)

theorem field_alike_of_altered (h : List.Forall₂ (AlteredEntry P R) es es') (name : String)
    (absent : α) {g : Value → Checked α} {S : α → α → Prop} (hS : ∀ x, S x x)
    (hg : ∀ v v', R v v' → Alike S (g v) (g v')) :
    Alike S (field es [name] absent g) (field es' [name] absent g) := by
  refine field_alike (sameField_of_altered h) [name] (hS absent) fun _ _ v v' hv => ?_
  obtain rfl | ⟨-,hR⟩ := hv
  · exact Alike.refl hS (g v)
  · exact hg v v' hR

/-- The two are good, or bad in the same places; nothing is asked of what is good. -/
abbrev SameShape (x y : Checked α) : Prop := Alike (fun _ _ => True) x y

theorem SameShape.seq {α' : Type} {g g' : Checked (α → α')} {x y : Checked α}
    (hg : SameShape g g') (h : SameShape x y) : SameShape (g <*> x) (g' <*> y) :=
  Alike.seq (hg.imp fun _ _ _ _ _ _ => trivial) h

theorem entries_sameShape {g : Value → Checked α} (hg : ∀ v v', R v v' → SameShape (g v) (g v'))
    (h : List.Forall₂ (AlteredEntry P R) es es') : SameShape (entries g es) (entries g es') := by
  have hentries : List.Forall₂ (SameEntry fun v v' => v = v' ∨ R v v') es es' :=
    h.imp fun e e' hee => ⟨hee.key_eq,hee.value.imp_right And.right⟩
  have hvalue : ∀ v v', v = v' ∨ R v v' → SameShape (g v) (g v') := by
    rintro v v' (rfl | hR)
    · exact Alike.refl (fun _ => trivial) (g v)
    · exact hg v v' hR
  exact (entries_alike hvalue hentries).imp fun _ _ _ => trivial

theorem dictionary_sameShape {g : Value → Checked α} (hg : ∀ v v', R v v' → SameShape (g v) (g v'))
    {v v' : Value} (h : Altered P R v v') : SameShape (dictionary g v) (dictionary g v') := by
  cases h with
  | same => exact Alike.refl (fun _ => trivial) _
  | map h => exact Alike.map (entries_sameShape hg h) fun _ _ _ => trivial

/-- The same but for what is in the list of the rules. -/
def SameButRules : Value → Value → Prop :=
  Altered (· = .str "rules") fun v v' => ∃ xs xs', v = .list xs ∧ v' = .list xs'

theorem rawFeature_sameShape {v v' : Value} (h : SameButRules v v') :
    SameShape (rawFeature v) (rawFeature v') := by
  cases h with
  | same => exact Alike.refl (fun _ => trivial) _
  | map h =>
    have hdefault := field_of_altered h ["defaultValue","default_value"] (by simp) .null
      anything
    have hrules := field_alike_of_altered h "rules" none (g := nullable (list anything))
      (S := fun _ _ => True) (fun _ => trivial) <| by
        rintro _ _ ⟨xs,xs',rfl,rfl⟩
        show SameShape (some <$> Checked.items anything 0 xs)
          (some <$> Checked.items anything 0 xs')
        rw [items_anything,items_anything]
        exact .good trivial
    refine SameShape.seq ?_ hrules
    rw [hdefault]
    exact Alike.refl (fun _ => trivial) _

theorem rawCatalog_alike {es es' : Entries}
    (h : Altered (· = .str "features") (Altered (fun _ => True) SameButRules) (.map es)
      (.map es')) :
    Alike (fun r r' => r.sealedFeatures = r'.sealedFeatures) (rawCatalog es) (rawCatalog es') := by
  cases h with
  | same => exact Alike.refl (fun r => Eq.refl r.sealedFeatures) _
  | map h =>
    have hfeatures := field_alike_of_altered h "features" [] (g := dictionary rawFeature)
      (S := fun _ _ => True) (fun _ => trivial)
      fun v v' hv => dictionary_sameShape (fun w w' hw => rawFeature_sameShape hw) hv
    have hsealed := field_of_altered h ["encryptedFeatures","encrypted_features"] (by simp) none
      (nullable string)
    have hdate := field_of_altered h ["dateUpdated","date_updated"] (by simp) none (nullable string)
    unfold rawCatalog
    rw [hsealed,hdate]
    have hmk : Alike (fun p q => ∀ s s' : Option String, s = s' → ∀ d d' : Option String, True →
        (p s d).sealedFeatures = (q s' d').sealedFeatures)
        (RawCatalog.mk <$> field es ["features"] [] (dictionary rawFeature))
        (RawCatalog.mk <$> field es' ["features"] [] (dictionary rawFeature)) :=
      hfeatures.map fun _ _ _ _ _ hs _ _ _ => hs
    exact (hmk.seq (Alike.refl (fun _ => rfl) _)).seq (Alike.refl (fun _ => trivial) _)

end Intake

namespace Catalog

/-- The same payload but for what is in the lists of the rules of its features. -/
def SameButRules (payload payload' : Value) : Prop :=
  payload = payload' ∨ ∃ es es', payload = .map es ∧ payload' = .map es' ∧
    Value.Altered (· = .str "features") (Value.Altered (fun _ => True) Intake.SameButRules)
      (.map (wrapped es)) (.map (wrapped es'))

/-- The rules have no say in whether a payload is refused, and how. -/
theorem read_error_congr {payload payload' : Value} (h : SameButRules payload payload')
    (key : Option String) (limit : Int) (e : EngineError) :
    (read payload key limit).1 = .error (.error e) ↔
      (read payload' key limit).1 = .error (.error e) := by
  obtain rfl | ⟨es,es',rfl,rfl,haltered⟩ := h
  · rfl
  · have hcompile : ∀ raws, (compile limit raws).1 ≠ .error (.error e) := by
      intro raws
      unfold compile
      rcases compileAll limit raws with ⟨f | fs,notes⟩ <;> simp
    have halike := Intake.rawCatalog_alike haltered
    unfold read readBy
    dsimp only
    generalize Intake.rawCatalog (wrapped es) = x at halike
    generalize Intake.rawCatalog (wrapped es') = y at halike
    cases halike with
    | bad errors => rfl
    | @good raw raw' hsealed =>
      dsimp only
      rw [hsealed]
      rcases raw'.sealedFeatures with _ | s
      · exact iff_of_false (hcompile _) (hcompile _)
      · rfl

end Catalog

theorem Condition.evaluate_eq_error_iff_of_writable (document : Value) (limit : Int) {a : Value}
    (ha : a.Writable) (f : Fault) :
    (evaluate document limit a).1 = .error f ↔ Trapped document limit f := by
  rw [evaluate_eq_error_iff]
  refine or_iff_left ?_
  rintro ⟨-,c,-,hstumbles⟩
  rw [c.stumbles_of_writable ha] at hstumbles
  cases hstumbles

/-- A payload with one feature that has one rule. -/
def Value.withRule (rule : Value) : Value :=
  .obj [("features",.obj [("banner",.obj [("rules",.list [rule])])])]

theorem Catalog.open_withRule (rule : Value) :
    Open (.withRule rule) [("banner",.obj [("rules",.list [rule])])] where
  unsealed fs raw hfs hraw := by
    obtain rfl := Value.map.inj hfs
    exact sealedFeatures_of_absent hraw rfl
  definitions_eq := rfl
  nodup := by simp

theorem Catalog.sameButRules_withRule (rule rule' : Value) :
    SameButRules (.withRule rule) (.withRule rule') := by
  have hfeature : Intake.SameButRules (.obj [("rules",.list [rule])])
      (.obj [("rules",.list [rule'])]) :=
    .map (.cons ⟨rfl,.inr ⟨rfl,_,_,rfl,rfl⟩⟩ .nil)
  have hfeatures : Value.Altered (fun _ => True) Intake.SameButRules
      (.obj [("banner",.obj [("rules",.list [rule])])])
      (.obj [("banner",.obj [("rules",.list [rule'])])]) :=
    .map (.cons ⟨rfl,.inr ⟨trivial,hfeature⟩⟩ .nil)
  exact .inr ⟨_,_,rfl,rfl,.map (.cons ⟨rfl,.inr ⟨rfl,hfeatures⟩⟩ .nil)⟩

/-- A pattern with more rounds than can be counted. -/
def Value.manyRounds : Value := .obj [("a",.obj [("$regex",.str "a\x7b99999999999\x7d")])]

/-- An error is known from an outcome whose result is forgotten. -/
theorem eq_error_of_map {ε α β : Type} {g : α → β} {x : Except ε α} {e : ε}
    (h : x.map g = .error e) : x = .error e := by
  cases x with
  | error e' => exact congrArg _ (Except.error.inj h)
  | ok a => cases h

end FlagEngine
