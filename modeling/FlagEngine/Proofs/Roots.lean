import FlagEngine.Proofs.DoublePlace
import FlagEngine.Proofs.LoadFailures

/-! Files whose root is no mapping. A catalog in JSON is refused for it. YAML is looked at only
after whatever is hollow has been taken for a mapping without entries, so that of a catalog or of
settings in YAML a hollow root passes for an empty file, and every other one is refused. -/
namespace FlagEngine

namespace Value

/-- What is no mapping and has nothing to it: nothing, false, zeros, and what is empty. -/
inductive Hollow : Value → Prop
  | null : Hollow .null
  | falsehood : Hollow (.bool false)
  | zero : Hollow (.int 0)
  | zeroDouble {x : Float} {neg : Bool} {e : Int} (h : Double.ofFloat x = .finite neg 0 e) :
      Hollow (.float x)
  | text : Hollow (.str "")
  | bytes : Hollow (.bytes [])
  | list : Hollow (.list [])
  | set : Hollow (.set [])

theorem same_zero_iff (x : Float) :
    (Extended.ofFloat x).same (.ofInt 0) = true ↔
      ∃ neg e, Double.ofFloat x = .finite neg 0 e := by
  have hzero : Double.ofFloat 0.0 = .finite false 0 (-1074) := by decide +kernel
  have hplace : Extended.ofFloat 0.0 = .ofInt 0 := Number.integer?_of_zero hzero
  constructor
  · intro h
    rw [← hplace] at h
    obtain heq | ⟨neg,-,e,-,hx,-⟩ := Double.eq_or_zero_of_place h
    · exact ⟨false,-1074,heq.trans hzero⟩
    · exact ⟨neg,e,hx⟩
  · rintro ⟨neg,e,h⟩
    rw [Number.integer?_of_zero h]
    exact Extended.same_iff.mpr ⟨rfl,nofun⟩

theorem hollow_scalar_iff (a : Scalar) : Hollow (.scalar a) ↔ a.truthy = false := by
  constructor
  · intro h
    cases h with
    | zeroDouble h => simp only [Scalar.truthy,(same_zero_iff _).mpr ⟨_,_,h⟩,Bool.not_true]
    | _ => rfl
  · intro h
    cases a with
    | null => exact .null
    | bool b =>
      obtain rfl : b = false := h
      exact .falsehood
    | int n =>
      obtain rfl : n = 0 := by simpa [Scalar.truthy] using h
      exact .zero
    | float x =>
      obtain ⟨neg,e,hx⟩ := (same_zero_iff x).mp (by simpa [Scalar.truthy] using h)
      exact .zeroDouble hx
    | str s =>
      obtain rfl : s = "" := by simpa [Scalar.truthy] using h
      exact .text
    | bytes bs =>
      obtain rfl : bs = [] := by simpa [Scalar.truthy] using h
      exact .bytes
    | date _ | moment _ => cases h

variable {v : Value}

theorem hollow_iff (hv : v.isMap = false) : v.Hollow ↔ v.truthy = false := by
  cases v with
  | scalar a => exact hollow_scalar_iff a
  | list xs =>
    cases xs with
    | nil => exact iff_of_true .list rfl
    | cons x xs => exact iff_of_false nofun nofun
  | pair v w => exact iff_of_false nofun nofun
  | set xs =>
    cases xs with
    | nil => exact iff_of_true .set rfl
    | cons x xs => exact iff_of_false nofun nofun
  | map es => cases hv

theorem Hollow.not_map (h : v.Hollow) : v.isMap = false := by
  cases h <;> rfl

theorem Hollow.orEmpty (h : v.Hollow) : v.orEmpty = map [] := by
  rw [Value.orEmpty,(hollow_iff h.not_map).mp h,if_neg Bool.false_ne_true]

theorem orEmpty_of_not_hollow (hv : v.isMap = false) (h : ¬ v.Hollow) : v.orEmpty = v := by
  rw [hollow_iff hv,Bool.not_eq_false] at h
  rw [Value.orEmpty,h,if_pos rfl]

end Value

/-- Loading ends in an error with this code. -/
def FailsWith {α : Type} (code : String) (x : Except LoadFailure α) : Prop :=
  ∃ e : EngineError, x = .error (.error e) ∧ e.code = code

section Roots

variable (folder : Folder) (path : Path)

/-- A file has a text that parses, as JSON or as YAML, to this value. -/
inductive Catalog.Root : Value → Prop
  | json {text : String} {v : Value} (read : folder.readText path = .ok text)
      (isJson : path.isJson = true) (h : Json.read text = .ok v) : Root v
  | yaml {text : String} {v : Value} (read : folder.readText path = .ok text)
      (not_json : path.isJson = false) (h : Yaml.read text = .ok v) : Root v

/-- Settings are always in YAML. -/
inductive Settings.Root : Value → Prop
  | yaml {text : String} {v : Value} (read : folder.readText path = .ok text)
      (h : Yaml.read text = .ok v) : Root v

end Roots

variable {folder : Folder} {path : Path} {v : Value}

theorem Readers.yamlOrEmpty_of_ok (readers : Readers) {text : String}
    (h : readers.yaml text = .ok v) : readers.yamlOrEmpty text = .ok v.orEmpty := by
  rw [yamlOrEmpty,h]
  rfl

namespace Catalog

theorem payload_of_root (h : Root folder path v) :
    payload (.ofFolder folder none) path = .ok (if path.isJson then v else v.orEmpty) := by
  cases h with
  | json hread hjson h =>
    have htext : (Readers.ofFolder folder none).text path = .ok _ := hread
    have hvalue : (Readers.ofFolder folder none).json _ = .ok v := h
    simp only [payload,htext,hjson,if_true,hvalue]
  | yaml hread hjson h =>
    have htext : (Readers.ofFolder folder none).text path = .ok _ := hread
    have hvalue := Readers.yamlOrEmpty_of_ok (.ofFolder folder none) h
    simp only [payload,htext,hjson,Bool.false_eq_true,if_false,hvalue]

theorem read_of_not_map (hv : v.isMap = false) (key : Option String) (limit : Int) :
    read v key limit = .ofError (.catalogNotAnObject v.className) := by
  cases v with
  | map es => cases hv
  | scalar _ | list _ | pair _ _ | set _ => rfl

theorem read_no_entries (key : Option String) (limit : Int) :
    (read (.map []) key limit).1 = .ok .empty := rfl

theorem load_of_root (h : Root folder path v) (hv : v.isMap = false) (key : Option String)
    (limit : Int) :
    (path.isJson = false ∧ v.Hollow ∧ (load folder path key limit).1 = .ok .empty) ∨
    ((path.isJson = true ∨ ¬ v.Hollow) ∧
      (load folder path key limit).1 = .error (.error (.catalogNotAnObject v.className))) := by
  have hload : (load folder path key limit).1 =
      (read (if path.isJson then v else v.orEmpty) key limit).1 := by
    rw [load,fst_loadBy,payload_of_root h]
    rfl
  rw [hload]
  cases hjson : path.isJson with
  | true => exact .inr ⟨.inl rfl,congrArg Prod.fst (read_of_not_map hv key limit)⟩
  | false =>
    rw [if_neg Bool.false_ne_true]
    by_cases hhollow : v.Hollow
    · rw [hhollow.orEmpty]
      exact .inl ⟨rfl,hhollow,read_no_entries key limit⟩
    · rw [Value.orEmpty_of_not_hollow hv hhollow]
      exact .inr ⟨.inr hhollow,congrArg Prod.fst (read_of_not_map hv key limit)⟩

end Catalog

namespace Settings

theorem document_of_root (h : Root folder path v) :
    document folder path =
      match v.orEmpty with
      | .map es => .ok (.map es)
      | _ => .error (.error (.settingsNotAMapping path.text)) := by
  obtain ⟨hread,h⟩ := h
  have htext : (Readers.ofFolder folder none).text path = .ok _ := hread
  have hvalue := Readers.yamlOrEmpty_of_ok (.ofFolder folder none) h
  simp only [document,documentBy,htext,hvalue]
  cases v.orEmpty <;> rfl

theorem document_of_hollow (h : Root folder path v) (hv : v.Hollow) :
    document folder path = .ok (.map []) := by
  rw [document_of_root h,hv.orEmpty]

theorem document_of_not_hollow (h : Root folder path v) (hv : v.isMap = false)
    (hsolid : ¬ v.Hollow) :
    document folder path = .error (.error (.settingsNotAMapping path.text)) := by
  rw [document_of_root h,Value.orEmpty_of_not_hollow hv hsolid]
  cases v with
  | map es => cases hv
  | scalar _ | list _ | pair _ _ | set _ => rfl

theorem exists_of_document (h : document folder path = .ok v) : ∃ es, v = .map es := by
  unfold document documentBy at h
  split at h
  · cases h
  · cases h
  · split at h
    · cases h
    · cases h
    · exact ⟨_,(Except.ok.inj h).symm⟩
    · cases h

theorem has_of_root (h : Root folder path v) : folder.has path = .ok true := by
  obtain ⟨hread,-⟩ := h
  unfold Folder.readText at hread
  unfold Folder.has
  split_ifs at hread ⊢
  split at hread
  · next hitem => rw [hitem]; rfl
  · cases hread

variable {base : Path}

theorem merged_none (base : Path) :
    merged (.ofFolder folder none) base none = document folder base :=
  bind_pure (document folder base)

theorem merged_of_error {environment : Option Path} {e : LoadFailure}
    (h : document folder base = .error e) :
    merged (.ofFolder folder none) base environment = .error e := by
  show document folder base >>= _ = _
  rw [h]
  rfl

theorem merged_of_root (h : Root folder path v) :
    merged (.ofFolder folder none) base (some path) =
      document folder base >>= fun w => w.overlay <$> document folder path := by
  have hhas : (Readers.ofFolder folder none).has path = .ok true := has_of_root h
  simp only [merged,hhas]
  rfl

/-- A hollow root has no entries to lay over the base. -/
theorem merged_of_hollow (h : Root folder path v) (hv : v.Hollow) :
    merged (.ofFolder folder none) base (some path) =
      merged (.ofFolder folder none) base none := by
  rw [merged_of_root h,document_of_hollow h hv,merged_none]
  cases hbase : document folder base with
  | error e => rfl
  | ok w =>
    obtain ⟨es,rfl⟩ := exists_of_document hbase
    have hnothing : (Value.map es).overlay (.map []) = .map es := by
      rw [Value.overlay,Entries.overlay]
    exact congrArg Except.ok hnothing

theorem load_of_error {environment : Option Path} {e : LoadFailure}
    (h : merged (.ofFolder folder none) base environment = .error e) :
    load folder base environment = .error e := by
  rw [load,loadBy,h]
  rfl

end Settings

/-- A root that is no mapping has a catalog refused if the file is JSON or the root is not hollow,
and if it is hollow YAML the catalog is empty. Settings are refused for it, in the base and in an
environment's file over a base that can be read, unless it is hollow. Then it counts as a mapping
without entries, and laid over a base it changes nothing. -/
theorem roots_of_no_mapping_are_refused_unless_hollow (hv : v.isMap = false) :
    (∀ path, Catalog.Root folder path v → ∀ key limit,
      (FailsWith "CATALOG_VALIDATION_ERROR" (Catalog.load folder path key limit).1 ↔
        path.isJson = true ∨ ¬ v.Hollow) ∧
      ((Catalog.load folder path key limit).1 = .ok .empty ↔ path.isJson = false ∧ v.Hollow)) ∧
    ∀ path, Settings.Root folder path v →
      (¬ v.Hollow →
        (∀ environment, FailsWith "CONFIG_PARSE_ERROR" (Settings.load folder path environment)) ∧
        ∀ base w, Settings.document folder base = .ok w →
          FailsWith "CONFIG_PARSE_ERROR" (Settings.load folder base (some path))) ∧
      (v.Hollow →
        Settings.document folder path = .ok (.map []) ∧
        FailsWith "CONFIG_VALIDATION_ERROR" (Settings.load folder path none) ∧
        ∀ base, Settings.load folder base (some path) = Settings.load folder base none) := by
  refine ⟨fun path h key limit => ?_,fun path h => ⟨fun hsolid => ?_,fun hhollow => ?_⟩⟩
  · obtain ⟨hjson,hhollow,hload⟩ | ⟨hrefused,hload⟩ := Catalog.load_of_root h hv key limit
    · rw [hload]
      refine ⟨iff_of_false ?_ ?_,iff_of_true rfl ⟨hjson,hhollow⟩⟩
      · rintro ⟨e,he,-⟩
        cases he
      · simp [hjson,hhollow]
    · rw [hload]
      refine ⟨iff_of_true ⟨_,rfl,rfl⟩ hrefused,iff_of_false nofun ?_⟩
      rintro ⟨hjson,hhollow⟩
      simp [hjson,hhollow] at hrefused
  · have hdocument := Settings.document_of_not_hollow h hv hsolid
    refine ⟨fun environment => ⟨.settingsNotAMapping path.text,Settings.load_of_error ?_,rfl⟩,
      fun base w hbase => ⟨.settingsNotAMapping path.text,Settings.load_of_error ?_,rfl⟩⟩
    · exact Settings.merged_of_error hdocument
    · rw [Settings.merged_of_root h,hbase,hdocument]
      rfl
  · have hdocument := Settings.document_of_hollow h hhollow
    refine ⟨hdocument,⟨.settingsInvalid [["app"]],?_,rfl⟩,fun base => ?_⟩
    · rw [Settings.load,Settings.loadBy,Settings.merged_none,hdocument]
      rfl
    · rw [Settings.load,Settings.loadBy,Settings.merged_of_hollow h hhollow]
      rfl

section Example

/-- Files with an empty list, in JSON and in YAML. -/
def Folder.ofBrackets : Folder := .ofList [("c.json",[91,93]),("c.yaml",[91,93])]

theorem Yaml.read_brackets : read "[]" = .ok (.list []) := by
  have hscan : Token.scan "[]" = [.openList,.closeList,.finished] := by decide +kernel
  have hnode : Node.ofTokens [.openList,.closeList,.finished] = .ok (some (.list .list [])) := rfl
  rw [read,hscan,hnode]
  show (Node.value (.list .list [])).outcome = _
  rw [Node.value,Node.items]
  rfl

theorem Folder.readText_ofBrackets :
    ofBrackets.readText (.ofText "c.json") = .ok "[]" ∧
      ofBrackets.readText (.ofText "c.yaml") = .ok "[]" := by
  decide +kernel

theorem Catalog.root_json : Root .ofBrackets (.ofText "c.json") (.list []) :=
  .json Folder.readText_ofBrackets.1 (by decide +kernel) rfl

theorem Catalog.root_yaml : Root .ofBrackets (.ofText "c.yaml") (.list []) :=
  .yaml Folder.readText_ofBrackets.2 (by decide +kernel) Yaml.read_brackets

theorem brackets_are_refused_in_json :
    (Value.list []).isMap = false ∧
      FailsWith "CATALOG_VALIDATION_ERROR"
        (Catalog.load .ofBrackets (.ofText "c.json") none 64).1 ∧
      (Catalog.load .ofBrackets (.ofText "c.yaml") none 64).1 = .ok .empty ∧
      FailsWith "CONFIG_VALIDATION_ERROR" (Settings.load .ofBrackets (.ofText "c.yaml") none) := by
  obtain ⟨hload,hsettings⟩ := roots_of_no_mapping_are_refused_unless_hollow (v := .list []) rfl
  have hroot : Settings.Root .ofBrackets (.ofText "c.yaml") (.list []) :=
    .yaml Folder.readText_ofBrackets.2 Yaml.read_brackets
  exact ⟨rfl,(hload _ Catalog.root_json none 64).1.mpr (.inl (by decide +kernel)),
    (hload _ Catalog.root_yaml none 64).2.mpr ⟨by decide +kernel,.list⟩,
    ((hsettings _ hroot).2 .list).2.1⟩

/-- An empty list in YAML is neither null nor a mapping, and loads all the same. -/
theorem brackets_are_a_catalog_in_yaml :
    ¬ ∀ (folder : Folder) (path : Path) (v : Value), Catalog.Root folder path v →
      v.isMap = false → (path.isJson = false → v ≠ .null) → ∀ key limit,
        FailsWith "CATALOG_VALIDATION_ERROR" (Catalog.load folder path key limit).1 := by
  intro hclaim
  obtain ⟨e,he,-⟩ := hclaim _ _ _ Catalog.root_yaml rfl (fun _ => nofun) none 64
  obtain ⟨-,-,hload⟩ | ⟨hrefused,-⟩ := Catalog.load_of_root Catalog.root_yaml rfl none 64
  · rw [hload] at he
    cases he
  · exact hrefused.elim (by decide +kernel) (absurd .list)

end Example
end FlagEngine
