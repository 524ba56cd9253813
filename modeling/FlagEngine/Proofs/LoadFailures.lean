import FlagEngine.Proofs.Encodings
import FlagEngine.Proofs.Loading
import FlagEngine.Settings.Intake

/-! What loading lets through. Catalogs and settings are loaded in layers: the file is read, decoded
and parsed, and what it holds is validated. Every layer has errors of its own, with the codes of the
loader; the faults of the readers below it, whatever readers they are, are let through, and for each
layer it is said here which. For the readers of a folder it is said what their faults come of. -/
namespace FlagEngine

theorem bind_eq_error_iff {ε α β : Type} (x : Except ε α) (g : α → Except ε β) (e : ε) :
    x >>= g = .error e ↔ x = .error e ∨ ∃ v, x = .ok v ∧ g v = .error e := by
  cases x <;> simp [bind,Except.bind]

theorem code_mem_of_error_eq {α : Type} {x e : EngineError} {codes : List String}
    (h : (.error (.error x) : Except LoadFailure α) = .error (.error e)) (hx : x.code ∈ codes) :
    e.code ∈ codes := by
  obtain rfl := LoadFailure.error.inj (Except.error.inj h)
  exact hx

/-- Loading gives a value or an error with one of the codes. -/
def Answered {α : Type} (codes : List String) (x : Except LoadFailure α) : Prop :=
  (∃ v, x = .ok v) ∨ ∃ e : EngineError, x = .error (.error e) ∧ e.code ∈ codes

theorem answered_iff {α : Type} {codes : List String} {x : Except LoadFailure α}
    (hcodes : ∀ e, x = .error (.error e) → e.code ∈ codes) :
    Answered codes x ↔ ∀ f, x ≠ .error (.fault f) := by
  constructor
  · rintro (⟨v,rfl⟩ | ⟨e,rfl,-⟩) f h <;> cases h
  · intro h
    rcases x with (e | f) | v
    · exact .inr ⟨e,rfl,hcodes e rfl⟩
    · exact absurd rfl (h f)
    · exact .inl ⟨v,rfl⟩

namespace Folder

/-- What faults there are in reading a file as text. -/
inductive Faulty (d : Folder) (p : Path) : Fault → Prop
  | nul (h : hasNul p = true) : Faulty d p .nulInPath
  | notUtf8 {bytes : List UInt8} (no_nul : hasNul p = false) (short : d.isTooLong p = false)
      (item : d.find? p = some (.file bytes)) (h : ∀ cs, Utf8.encode cs ≠ bytes) :
      Faulty d p .notUtf8

theorem readText_eq_fault_iff (d : Folder) (p : Path) (f : Fault) :
    d.readText p = .error (.fault f) ↔ d.Faulty p f := by
  unfold readText
  cases hnul : hasNul p with
  | true =>
    rw [if_pos rfl]
    constructor
    · intro h
      obtain rfl := Refusal.fault.inj (Except.error.inj h)
      exact .nul hnul
    · intro h
      cases h with
      | nul => rfl
      | notUtf8 hno => simp [hnul] at hno
  | false =>
    rw [if_neg Bool.false_ne_true]
    constructor
    · intro h
      split_ifs at h with hlong
      · cases h
      · split at h
        · next bytes hitem =>
          split at h
          · cases h
          · next hdecode =>
            obtain rfl := Refusal.fault.inj (Except.error.inj h)
            exact .notUtf8 hnul (Bool.eq_false_of_not_eq_true hlong) hitem
              ((Utf8.decode?_eq_none_iff bytes).mp hdecode)
        · cases h
    · intro h
      cases h with
      | nul h => simp [hnul] at h
      | notUtf8 _ hshort hitem hnone =>
        simp only [hshort,Bool.false_eq_true,if_false,hitem,(Utf8.decode?_eq_none_iff _).mpr hnone]

/-- To ask whether there is something under a name that is too long is a fault, unless no name could
be so. -/
theorem has_eq_error_iff (d : Folder) (p : Path) (f : Fault) :
    d.has p = .error f ↔ hasNul p = false ∧ d.isTooLong p = true ∧ f = .nameTooLong := by
  unfold has
  split_ifs with hnul hlong
  · simp [hnul]
  · simp [hnul,hlong,@eq_comm _ f]
  · simp [hlong]

end Folder

namespace Rule

/-- The first of the raw rules with a trap in its condition. -/
def FirstTrapped (vs : List Value) (limit : Int) (f : Fault) : Prop :=
  ∃ us v ws, vs = us ++ v :: ws ∧ Trapped v limit f ∧ ∀ u ∈ us, ∀ g, ¬ Trapped u limit g

theorem not_firstTrapped_nil (limit : Int) (f : Fault) : ¬ FirstTrapped [] limit f := by
  rintro ⟨us,v,ws,hvs,-⟩
  simp at hvs

theorem firstTrapped_cons_iff (v : Value) (vs : List Value) (limit : Int) (f : Fault) :
    FirstTrapped (v :: vs) limit f ↔
      Trapped v limit f ∨ (∀ g, ¬ Trapped v limit g) ∧ FirstTrapped vs limit f := by
  constructor
  · rintro ⟨us,u,ws,hvs,htrapped,hbefore⟩
    cases us with
    | nil =>
      obtain ⟨rfl,-⟩ := List.cons.inj hvs
      exact .inl htrapped
    | cons x us =>
      obtain ⟨rfl,rfl⟩ := List.cons.inj hvs
      rw [List.forall_mem_cons] at hbefore
      exact .inr ⟨hbefore.1,us,u,ws,rfl,htrapped,hbefore.2⟩
  · rintro (htrapped | ⟨hno,us,u,ws,rfl,htrapped,hbefore⟩)
    · exact ⟨[],v,vs,rfl,htrapped,by simp⟩
    · exact ⟨v :: us,u,ws,rfl,htrapped,List.forall_mem_cons.mpr ⟨hno,hbefore⟩⟩

/-- Rules are read in order, and behind them whatever is read next. -/
theorem compileAll_append_iff (k : String) (limit : Int) (vs ws : List Value) (f : Fault) :
    FirstTrapped (vs ++ ws) limit f ↔
      (compileAll k limit vs).1 = .error f ∨
        (∃ rs, (compileAll k limit vs).1 = .ok rs) ∧ FirstTrapped ws limit f := by
  induction vs with
  | nil => simp [compileAll]
  | cons v vs ih =>
    rw [List.cons_append,firstTrapped_cons_iff,ih]
    simp only [compileAll]
    rcases hv : compile v k limit with ⟨g | r,notes⟩
    · have htrapped : Trapped v limit g := (compile_eq_error_iff v k limit g).mp (by rw [hv])
      have hsame : Trapped v limit f ↔ g = f := by
        rw [← compile_eq_error_iff v k limit f,hv]
        simp
      simp only [hsame,Except.error.injEq,reduceCtorEq,exists_false,false_and,or_false]
      exact ⟨fun h => h.elim id fun h => absurd htrapped (h.1 g),.inl⟩
    · have hno : ∀ g, ¬ Trapped v limit g := by
        intro g htrapped
        rw [← compile_eq_error_iff v k limit g,hv] at htrapped
        cases htrapped
      rcases hvs : compileAll k limit vs with ⟨g | rs,more⟩ <;> simp [hno,Except.map]

end Rule

namespace Catalog

/-- The raw rules of all features, in order. -/
def rawRules (raws : List (String × RawFeature)) : List Value :=
  raws.flatMap fun e => e.2.rules.getD []

theorem compileAll_eq_error_iff (limit : Int) (raws : List (String × RawFeature)) (f : Fault) :
    (compileAll limit raws).1 = .error f ↔ Rule.FirstTrapped (rawRules raws) limit f := by
  induction raws with
  | nil => simp [compileAll,rawRules,Rule.not_firstTrapped_nil]
  | cons e raws ih =>
    obtain ⟨key,raw⟩ := e
    have hrules : rawRules ((key,raw) :: raws) = raw.rules.getD [] ++ rawRules raws := rfl
    rw [hrules,Rule.compileAll_append_iff key,← ih]
    simp only [compileAll,Feature.compile]
    rcases hall : Rule.compileAll key limit (raw.rules.getD []) with ⟨g | rs,notes⟩
    · simp
    · rcases hraws : compileAll limit raws with ⟨g | fs,more⟩ <;> simp [Except.map]

theorem compile_eq_fault_iff (limit : Int) (raws : List (String × RawFeature)) (f : Fault) :
    (compile limit raws).1 = .error (.fault f) ↔ Rule.FirstTrapped (rawRules raws) limit f := by
  rw [← compileAll_eq_error_iff]
  unfold compile
  rcases compileAll limit raws with ⟨g | fs,notes⟩ <;> simp

/-- Features that come open have a rule with a trap. -/
def FeaturesTrapped (features : Value) (limit : Int) (f : Fault) : Prop :=
  ∃ raw, Intake.rawCatalog [(.str "features",features)] = .good raw ∧
    Rule.FirstTrapped (rawRules raw.features) limit f

/-- What faults there are in reading a payload. -/
inductive Faulty (json : Json.Reader) (limit : Int) : Value → Option String → Fault → Prop
  | trapped {es : Entries} {raw : RawCatalog} {key : Option String} {f : Fault}
      (fields : Intake.rawCatalog (wrapped es) = .good raw) (unsealed : raw.sealedFeatures = none)
      (h : Rule.FirstTrapped (rawRules raw.features) limit f) : Faulty json limit (.map es) key f
  | unsealed {es : Entries} {raw : RawCatalog} {s key text : String} {f : Fault}
      (fields : Intake.rawCatalog (wrapped es) = .good raw)
      (isSealed : raw.sealedFeatures = some s) (key_ne : key.isEmpty = false)
      (unsealed : Cipher.unseal? s key = some text) (h : json text = .error (.fault f)) :
      Faulty json limit (.map es) (some key) f
  | sealedTrapped {es : Entries} {raw : RawCatalog} {s key text : String} {features : Value}
      {f : Fault} (fields : Intake.rawCatalog (wrapped es) = .good raw)
      (isSealed : raw.sealedFeatures = some s) (key_ne : key.isEmpty = false)
      (unsealed : Cipher.unseal? s key = some text) (document : json text = .ok features)
      (h : FeaturesTrapped features limit f) : Faulty json limit (.map es) (some key) f

theorem readFeatures_eq_fault_iff (features : Value) (limit : Int) (f : Fault) :
    (readFeatures features limit).1 = .error (.fault f) ↔ FeaturesTrapped features limit f := by
  unfold readFeatures FeaturesTrapped
  rcases Intake.rawCatalog [(.str "features",features)] with raw | wrong
  · simp [compile_eq_fault_iff]
  · simp [Loaded.ofError]

section

variable (json : Json.Reader) (key : Option String) (limit : Int) (f : Fault)

/-- Sealed features are refused without a key and with one that does not unseal them. -/
theorem readSealed_cases (s : String) :
    readSealed json s key limit = .ofError .keyMissing ∨
    readSealed json s key limit = .ofError .undecryptable ∨
    ∃ k text, key = some k ∧ k.isEmpty = false ∧ Cipher.unseal? s k = some text := by
  rcases key with _ | k
  · exact .inl rfl
  cases hempty : k.isEmpty with
  | true => exact .inl (by simp only [readSealed,hempty,if_true])
  | false =>
    rcases hunseal : Cipher.unseal? s k with _ | text
    · exact .inr (.inl (by simp only [readSealed,hempty,hunseal,Bool.false_eq_true,if_false]))
    · exact .inr (.inr ⟨k,text,rfl,hempty,hunseal⟩)

theorem readSealed_eq_fault_iff (s : String) :
    (readSealed json s key limit).1 = .error (.fault f) ↔
      ∃ k text, key = some k ∧ k.isEmpty = false ∧ Cipher.unseal? s k = some text ∧
        (json text = .error (.fault f) ∨
          ∃ features, json text = .ok features ∧ FeaturesTrapped features limit f) := by
  constructor
  · intro h
    obtain hfails | hfails | ⟨k,text,rfl,hempty,hunseal⟩ := readSealed_cases json key limit s
    · rw [hfails] at h
      cases h
    · rw [hfails] at h
      cases h
    · refine ⟨k,text,rfl,hempty,hunseal,?_⟩
      rw [readSealed_of_unsealed hempty hunseal] at h
      rcases hread : json text with (_ | g) | features <;> simp only [hread] at h
      · cases h
      · obtain rfl := LoadFailure.fault.inj (Except.error.inj h)
        exact .inl rfl
      · exact .inr ⟨features,rfl,(readFeatures_eq_fault_iff features limit f).mp h⟩
  · rintro ⟨k,text,rfl,hempty,hunseal,hread | ⟨features,hread,htrapped⟩⟩
    · rw [readSealed_of_unsealed hempty hunseal,hread]
      rfl
    · rw [readSealed_of_unsealed hempty hunseal,hread]
      exact (readFeatures_eq_fault_iff features limit f).mpr htrapped

theorem readBy_eq_fault_iff (v : Value) :
    (readBy json v key limit).1 = .error (.fault f) ↔ Faulty json limit v key f := by
  constructor
  · intro h
    cases v with
    | map es =>
      rcases hraw : Intake.rawCatalog (wrapped es) with raw | wrong
      · rw [readBy_of_good hraw] at h
        rcases hsealed : raw.sealedFeatures with _ | s <;> simp only [hsealed] at h
        · exact .trapped hraw hsealed ((compile_eq_fault_iff limit _ f).mp h)
        · obtain ⟨k,text,rfl,hempty,hunseal,hread | ⟨features,hread,htrapped⟩⟩ :=
            (readSealed_eq_fault_iff json key limit f s).mp h
          · exact .unsealed hraw hsealed hempty hunseal hread
          · exact .sealedTrapped hraw hsealed hempty hunseal hread htrapped
      · rw [readBy_of_bad hraw] at h
        cases h
    | _ => cases h
  · intro h
    cases h with
    | trapped hraw hsealed htrapped =>
      rw [readBy_of_good hraw]
      simp only [hsealed]
      exact (compile_eq_fault_iff limit _ f).mpr htrapped
    | unsealed hraw hsealed hempty hunseal hread =>
      rw [readBy_of_good hraw]
      simp only [hsealed]
      exact (readSealed_eq_fault_iff json _ limit f _).mpr
        ⟨_,_,rfl,hempty,hunseal,.inl hread⟩
    | sealedTrapped hraw hsealed hempty hunseal hread htrapped =>
      rw [readBy_of_good hraw]
      simp only [hsealed]
      exact (readSealed_eq_fault_iff json _ limit f _).mpr
        ⟨_,_,rfl,hempty,hunseal,.inr ⟨_,hread,htrapped⟩⟩

end

/-- What faults there are in getting the payload of a file. -/
inductive PayloadFaulty (readers : Readers) (path : Path) (f : Fault) : Prop
  | text (h : readers.text path = .error (.fault f)) : PayloadFaulty readers path f
  | json {text : String} (read : readers.text path = .ok text) (isJson : path.isJson = true)
      (h : readers.json text = .error (.fault f)) : PayloadFaulty readers path f
  | yaml {text : String} (read : readers.text path = .ok text) (not_json : path.isJson = false)
      (h : readers.yaml text = .error (.fault f)) : PayloadFaulty readers path f

end Catalog

variable (readers : Readers)

theorem Readers.yamlOrEmpty_eq_error_iff (text : String) (x : Yaml.Failure) :
    readers.yamlOrEmpty text = .error x ↔ readers.yaml text = .error x := by
  unfold yamlOrEmpty
  rcases readers.yaml text with y | v <;> simp [Except.map]

namespace Catalog

theorem payload_eq_fault_iff (path : Path) (f : Fault) :
    payload readers path = .error (.fault f) ↔ PayloadFaulty readers path f := by
  constructor
  · intro h
    unfold payload at h
    rcases htext : readers.text path with (_ | g) | text <;> simp only [htext] at h
    · cases h
    · obtain rfl := LoadFailure.fault.inj (Except.error.inj h)
      exact .text htext
    · cases hjson : path.isJson with
      | true =>
        simp only [hjson,if_true] at h
        rcases hread : readers.json text with (_ | g) | v <;> simp only [hread] at h
        · cases h
        · obtain rfl := LoadFailure.fault.inj (Except.error.inj h)
          exact .json htext hjson hread
        · cases h
      | false =>
        simp only [hjson,Bool.false_eq_true,if_false] at h
        rcases hread : readers.yamlOrEmpty text with (_ | g) | v <;> simp only [hread] at h
        · cases h
        · obtain rfl := LoadFailure.fault.inj (Except.error.inj h)
          exact .yaml htext hjson ((readers.yamlOrEmpty_eq_error_iff text _).mp hread)
        · cases h
  · intro h
    unfold payload
    cases h with
    | text h => simp only [h]
    | json htext hjson hread => simp only [htext,hjson,if_true,hread]
    | yaml htext hjson hread =>
      simp only [htext,hjson,Bool.false_eq_true,if_false,
        (readers.yamlOrEmpty_eq_error_iff _ _).mpr hread]

/-- What faults there are in loading a catalog: in getting the payload or else in reading it. -/
inductive LoadFaulty (readers : Readers) (path : Path) (key : Option String) (limit : Int)
    (f : Fault) : Prop
  | payload (h : PayloadFaulty readers path f) : LoadFaulty readers path key limit f
  | read {v : Value} (payload : payload readers path = .ok v)
      (h : Faulty readers.json limit v key f) : LoadFaulty readers path key limit f

theorem fst_loadBy (path : Path) (key : Option String) (limit : Int) :
    (loadBy readers path key limit).1 =
      payload readers path >>= fun v => (readBy readers.json v key limit).1 := by
  unfold loadBy
  rcases payload readers path with x | v
  · rfl
  · show ((readBy readers.json v key limit).bind _).1 = (readBy readers.json v key limit).1
    rcases readBy readers.json v key limit with ⟨x | c,notes⟩ <;> rfl

theorem loadBy_eq_fault_iff (path : Path) (key : Option String) (limit : Int) (f : Fault) :
    (loadBy readers path key limit).1 = .error (.fault f) ↔
      LoadFaulty readers path key limit f := by
  rw [fst_loadBy,bind_eq_error_iff,payload_eq_fault_iff]
  constructor
  · rintro (h | ⟨v,hpayload,h⟩)
    · exact .payload h
    · exact .read hpayload ((readBy_eq_fault_iff readers.json key limit f v).mp h)
  · intro h
    cases h with
    | payload h => exact .inl h
    | read hpayload h =>
      exact .inr ⟨_,hpayload,(readBy_eq_fault_iff readers.json key limit f _).mpr h⟩

/-! The codes of a catalog's errors. -/

def codes : List String :=
  ["CATALOG_READ_ERROR","CATALOG_PARSE_ERROR","CATALOG_VALIDATION_ERROR","CATALOG_DECRYPT_ERROR"]

section

variable {limit : Int} {key : Option String} {e : EngineError}

theorem not_error_of_compile {raws : List (String × RawFeature)} :
    (compile limit raws).1 ≠ .error (.error e) := by
  unfold compile
  rcases compileAll limit raws with ⟨g | fs,notes⟩ <;> simp

theorem code_of_readFeatures {features : Value}
    (h : (readFeatures features limit).1 = .error (.error e)) : e.code ∈ codes := by
  unfold readFeatures at h
  split at h
  · exact code_mem_of_error_eq h (by simp [codes,EngineError.code])
  · exact absurd h not_error_of_compile

theorem code_of_readSealed {json : Json.Reader} {s : String}
    (h : (readSealed json s key limit).1 = .error (.error e)) : e.code ∈ codes := by
  obtain hfails | hfails | ⟨k,text,rfl,hempty,hunseal⟩ := readSealed_cases json key limit s
  · rw [hfails] at h
    exact code_mem_of_error_eq h (by simp [codes,EngineError.code])
  · rw [hfails] at h
    exact code_mem_of_error_eq h (by simp [codes,EngineError.code])
  · rw [readSealed_of_unsealed hempty hunseal] at h
    rcases hread : json text with (_ | _) | features <;> simp only [hread] at h
    · exact code_mem_of_error_eq h (by simp [codes,EngineError.code])
    · cases h
    · exact code_of_readFeatures h

theorem code_of_readBy {json : Json.Reader} {v : Value}
    (h : (readBy json v key limit).1 = .error (.error e)) : e.code ∈ codes := by
  cases v with
  | map es =>
    rcases hraw : Intake.rawCatalog (wrapped es) with raw | wrong
    · rw [readBy_of_good hraw] at h
      rcases hsealed : raw.sealedFeatures with _ | s <;> simp only [hsealed] at h
      · exact absurd h not_error_of_compile
      · exact code_of_readSealed h
    · rw [readBy_of_bad hraw] at h
      exact code_mem_of_error_eq h (by simp [codes,EngineError.code])
  | _ =>
    exact code_mem_of_error_eq h (by simp [codes,EngineError.code])

variable {readers : Readers} {path : Path}

theorem code_of_payload (h : payload readers path = .error (.error e)) : e.code ∈ codes := by
  unfold payload at h
  rcases htext : readers.text path with (_ | g) | text <;> simp only [htext] at h
  · exact code_mem_of_error_eq h (by simp [codes,EngineError.code])
  · cases h
  · cases hjson : path.isJson with
    | true =>
      simp only [hjson,if_true] at h
      rcases hread : readers.json text with (_ | _) | v <;> simp only [hread] at h
      · exact code_mem_of_error_eq h (by simp [codes,EngineError.code])
      · cases h
      · cases h
    | false =>
      simp only [hjson,Bool.false_eq_true,if_false] at h
      rcases hread : readers.yamlOrEmpty text with (_ | g) | v <;> simp only [hread] at h
      · exact code_mem_of_error_eq h (by simp [codes,EngineError.code])
      · cases h
      · cases h

theorem code_of_loadBy (h : (loadBy readers path key limit).1 = .error (.error e)) :
    e.code ∈ codes := by
  rw [fst_loadBy,bind_eq_error_iff] at h
  obtain h | ⟨v,-,h⟩ := h
  · exact code_of_payload h
  · exact code_of_readBy h

end

end Catalog

namespace Settings

/-- What faults there are in reading a file of settings. -/
inductive DocumentFaulty (readers : Readers) (path : Path) (f : Fault) : Prop
  | text (h : readers.text path = .error (.fault f)) : DocumentFaulty readers path f
  | yaml {text : String} (read : readers.text path = .ok text)
      (h : readers.yaml text = .error (.fault f)) : DocumentFaulty readers path f

theorem documentBy_eq_fault_iff (path : Path) (f : Fault) :
    documentBy readers path = .error (.fault f) ↔ DocumentFaulty readers path f := by
  constructor
  · intro h
    unfold documentBy at h
    rcases htext : readers.text path with (_ | g) | text <;> simp only [htext] at h
    · cases h
    · obtain rfl := LoadFailure.fault.inj (Except.error.inj h)
      exact .text htext
    · rcases hread : readers.yamlOrEmpty text with (_ | g) | v <;> simp only [hread] at h
      · cases h
      · obtain rfl := LoadFailure.fault.inj (Except.error.inj h)
        exact .yaml htext ((readers.yamlOrEmpty_eq_error_iff text _).mp hread)
      · cases v <;> cases h
  · intro h
    unfold documentBy
    cases h with
    | text h => simp only [h]
    | yaml htext hread =>
      simp only [htext,(readers.yamlOrEmpty_eq_error_iff _ _).mpr hread]

/-- What faults there are in loading settings: in the base, or else in asking for the file of the
environment, or else, if that is there, in it. -/
inductive LoadFaulty (readers : Readers) (base : Path) : Option Path → Fault → Prop
  | base {environment : Option Path} {f : Fault} (h : DocumentFaulty readers base f) :
      LoadFaulty readers base environment f
  | asked {v : Value} {path : Path} {f : Fault} (read : documentBy readers base = .ok v)
      (h : readers.has path = .error f) : LoadFaulty readers base (some path) f
  | environment {v : Value} {path : Path} {f : Fault} (read : documentBy readers base = .ok v)
      (has : readers.has path = .ok true) (h : DocumentFaulty readers path f) :
      LoadFaulty readers base (some path) f

theorem merged_eq_fault_iff (base : Path) (environment : Option Path) (f : Fault) :
    merged readers base environment = .error (.fault f) ↔
      LoadFaulty readers base environment f := by
  unfold merged
  rw [bind_eq_error_iff,documentBy_eq_fault_iff]
  constructor
  · rintro (h | ⟨v,hbase,h⟩)
    · exact .base h
    · rcases environment with _ | path
      · cases h
      · rcases hhas : readers.has path with g | _ | _ <;> simp only [hhas] at h
        · obtain rfl := LoadFailure.fault.inj (Except.error.inj h)
          exact .asked hbase hhas
        · cases h
        · rw [bind_eq_error_iff,documentBy_eq_fault_iff] at h
          obtain h | ⟨w,-,h⟩ := h
          · exact .environment hbase hhas h
          · cases h
  · intro h
    cases h with
    | base h => exact .inl h
    | asked hbase hhas =>
      refine .inr ⟨_,hbase,?_⟩
      simp only [hhas]
      rfl
    | environment hbase hhas h =>
      refine .inr ⟨_,hbase,?_⟩
      simp only [hhas]
      rw [bind_eq_error_iff,documentBy_eq_fault_iff]
      exact .inl h

theorem loadBy_eq_fault_iff (base : Path) (environment : Option Path) (f : Fault) :
    loadBy readers base environment = .error (.fault f) ↔
      LoadFaulty readers base environment f := by
  unfold loadBy
  rw [bind_eq_error_iff,merged_eq_fault_iff]
  refine or_iff_left ?_
  rintro ⟨v,-,h⟩
  rcases hsettings : Intake.settings v with s | wrong <;> rw [hsettings] at h <;> cases h

/-! The codes of the errors of settings. -/

def codes : List String := ["CONFIG_READ_ERROR","CONFIG_PARSE_ERROR","CONFIG_VALIDATION_ERROR"]

section

variable {readers : Readers} {e : EngineError}

theorem code_of_documentBy {path : Path} (h : documentBy readers path = .error (.error e)) :
    e.code ∈ codes := by
  unfold documentBy at h
  rcases htext : readers.text path with (_ | g) | text <;> simp only [htext] at h
  · exact code_mem_of_error_eq h (by simp [codes,EngineError.code])
  · cases h
  · rcases hread : readers.yamlOrEmpty text with (_ | g) | v <;> simp only [hread] at h
    · exact code_mem_of_error_eq h (by simp [codes,EngineError.code])
    · cases h
    · cases v with
      | map es => cases h
      | _ =>
        exact code_mem_of_error_eq h (by simp [codes,EngineError.code])

theorem code_of_merged {base : Path} {environment : Option Path}
    (h : merged readers base environment = .error (.error e)) : e.code ∈ codes := by
  unfold merged at h
  rw [bind_eq_error_iff] at h
  obtain h | ⟨v,-,h⟩ := h
  · exact code_of_documentBy h
  · rcases environment with _ | path
    · cases h
    · rcases hhas : readers.has path with g | _ | _ <;> simp only [hhas] at h
      · cases h
      · cases h
      · rw [bind_eq_error_iff] at h
        obtain h | ⟨w,-,h⟩ := h
        · exact code_of_documentBy h
        · cases h

theorem code_of_loadBy {base : Path} {environment : Option Path}
    (h : loadBy readers base environment = .error (.error e)) : e.code ∈ codes := by
  unfold loadBy at h
  rw [bind_eq_error_iff] at h
  obtain h | ⟨v,-,h⟩ := h
  · exact code_of_merged h
  · rcases hsettings : Intake.settings v with s | wrong <;> rw [hsettings] at h
    · cases h
    · exact code_mem_of_error_eq h (by simp [codes,EngineError.code])

end

end Settings

/-- Levels that there is no room for are a fault of a reader like any other. -/
example (folder : Folder) :
    (Readers.ofFolder folder (some 1)).json "[[]]" = .error (.fault .nestedTooDeep) := rfl

end FlagEngine
