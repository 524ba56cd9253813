import FlagEngine.Proofs.Equality
import FlagEngine.Value.Overlay
import Mathlib.Data.List.Infix

/-! Mappings laid over each other. What is found at a path of keys is, where both have mappings, the
one laid over the other; else what the mapping on top has there; and where the top ends in a mapping
before the path does, what the mapping below has. -/
namespace FlagEngine

namespace Entries

variable {es base top : Entries} {k : Scalar} {v w : Value}

theorem find?_put (es : Entries) (k : Scalar) (v : Value) (l : Scalar) :
    (es.put k v).find? l = if k.sameKey l then some v else es.find? l := by
  induction es with
  | nil => rfl
  | cons e es ih =>
    by_cases hek : e.1.sameKey k = true
    · have hkey : e.1.sameKey l = k.sameKey l := by
        rw [Bool.eq_iff_iff,Scalar.sameKey_iff,Scalar.sameKey_iff,(Scalar.sameKey_iff _ _).mp hek]
      simp only [put,if_pos hek,find?,hkey]
      split <;> rfl
    · simp only [put,if_neg hek,find?,ih]
      by_cases hel : e.1.sameKey l = true
      · have hkl : ¬ k.sameKey l = true := fun hkl =>
          hek (Scalar.sameKey_trans hel (Scalar.sameKey_comm k l ▸ hkl))
        simp only [if_pos hel,if_neg hkl]
      · simp only [if_neg hel]

/-- A key that is known keeps its place; a new one comes last. -/
theorem keys_put (es : Entries) (k : Scalar) (v : Value) :
    (es.put k v).map (·.1) = es.map (·.1) ++ if es.has k then [] else [k] := by
  induction es with
  | nil => rfl
  | cons e es ih =>
    by_cases hek : e.1.sameKey k = true
    · simp [put,has,find?,hek]
    · have hhas : has (e :: es) k = has es k := by simp only [has,find?,if_neg hek]
      simp only [put,if_neg hek,List.map_cons,ih,hhas,List.cons_append]

theorem put_eq_self (h : es.find? k = some v) : es.put k v = es := by
  induction es with
  | nil => cases h
  | cons e es ih =>
    by_cases hek : e.1.sameKey k = true
    · simp only [find?,if_pos hek,Option.some.injEq] at h
      simp only [put,if_pos hek,← h]
    · simp only [find?,if_neg hek] at h
      simp only [put,if_neg hek,ih h]

theorem put_of_find?_eq_none (h : es.find? k = none) : es.put k v = es ++ [(k,v)] := by
  induction es with
  | nil => rfl
  | cons e es ih =>
    by_cases hek : e.1.sameKey k = true
    · simp [find?,hek] at h
    · simp only [find?,if_neg hek] at h
      simp only [put,if_neg hek,ih h,List.cons_append]

/-- What lies under a key when a value is laid over what was there. -/
def laid (below? : Option Value) (v : Value) : Value :=
  match below? with
  | some w => w.overlay v
  | none => v

theorem overlay_cons (base : Entries) (e : Scalar × Value) (top : Entries) :
    overlay base (e :: top) = overlay (base.put e.1 (laid (base.find? e.1) e.2)) top := by
  rw [overlay]
  rfl

theorem find?_eq_none_of_distinct {e : Scalar × Value}
    (h : Scalar.Distinct ((e :: top).map (·.1))) : top.find? e.1 = none := by
  cases hfind : top.find? e.1 with
  | none => rfl
  | some v =>
    obtain ⟨d,hd,hkey,-⟩ := exists_of_find? hfind
    have hne := (List.pairwise_cons.mp h).1 d.1 (List.mem_map_of_mem hd)
    rw [Scalar.sameKey_comm,hkey] at hne
    cases hne

theorem find?_overlay (h : Scalar.Distinct (top.map (·.1))) (base : Entries) (l : Scalar) :
    find? (overlay base top) l =
      match top.find? l with
      | some v => some (laid (base.find? l) v)
      | none => base.find? l := by
  induction top generalizing base with
  | nil => rw [overlay,find?_nil]
  | cons e top ih =>
    rw [overlay_cons,ih (List.pairwise_cons.mp h).2,find?_put]
    by_cases hel : e.1.sameKey l = true
    · rw [← find?_congr hel top,find?_eq_none_of_distinct h,find?,if_pos hel,if_pos hel,
        find?_congr hel base]
    · simp only [find?,if_neg hel]

theorem keys_overlay (h : Scalar.Distinct (top.map (·.1))) (base : Entries) :
    (overlay base top).map (·.1) =
      base.map (·.1) ++ (top.map (·.1)).filter fun k => !base.has k := by
  induction top generalizing base with
  | nil => simp [overlay]
  | cons e top ih =>
    obtain ⟨hfirst,hrest⟩ := List.pairwise_cons.mp h
    have hfilter : (top.map (·.1)).filter (fun k => !(base.put e.1 (laid (base.find? e.1) e.2)).has k)
        = (top.map (·.1)).filter fun k => !base.has k := by
      refine List.filter_congr fun k hk => ?_
      rw [has,find?_put,if_neg (Bool.eq_false_iff.mp (hfirst k hk)),has]
    rw [overlay_cons,ih hrest,keys_put,hfilter,List.append_assoc,List.map_cons,List.filter_cons]
    cases base.has e.1 <;> rfl

theorem overlay_eq_self (h : ∀ e ∈ top, ∃ w, base.find? e.1 = some w ∧ w.overlay e.2 = w) :
    overlay base top = base := by
  induction top with
  | nil => rw [overlay]
  | cons e top ih =>
    obtain ⟨⟨w,hw,hlaid⟩,hrest⟩ := List.forall_mem_cons.mp h
    rw [overlay_cons,hw,laid,hlaid,put_eq_self hw,ih hrest]

/-- Distinct keys, none of which is known, follow those that are. -/
theorem overlay_of_apart (h : Scalar.Distinct (top.map (·.1)))
    (hapart : ∀ e ∈ top, base.find? e.1 = none) : overlay base top = base ++ top := by
  induction top generalizing base with
  | nil => rw [overlay,List.append_nil]
  | cons e top ih =>
    obtain ⟨hfirst,hrest⟩ := List.pairwise_cons.mp h
    obtain ⟨hnone,hothers⟩ := List.forall_mem_cons.mp hapart
    have hstill : ∀ d ∈ top, find? (base ++ [e]) d.1 = none := by
      intro d hd
      have hne := Bool.eq_false_iff.mp (hfirst d.1 (List.mem_map_of_mem hd))
      rw [← put_of_find?_eq_none hnone,find?_put,if_neg hne,hothers d hd]
    rw [overlay_cons,hnone,laid,put_of_find?_eq_none hnone,ih hrest hstill,List.append_assoc,
      List.singleton_append]

end Entries

namespace Value

/-- The value at a path of keys. -/
def within? : Value → List Scalar → Option Value
  | v, [] => some v
  | .map es, k :: path => (Entries.find? es k).bind (within? · path)
  | _, _ :: _ => none

variable {b o v w : Value}

@[simp] theorem within?_nil (v : Value) : v.within? [] = some v := by cases v <;> rfl

theorem within?_cons_of_not_map (h : v.isMap = false) (k : Scalar) (path : List Scalar) :
    v.within? (k :: path) = none := by
  cases v with
  | map es => cases h
  | scalar _ | list _ | pair _ _ | set _ => rfl

theorem within?_append (v : Value) (path path' : List Scalar) :
    v.within? (path ++ path') = (v.within? path).bind (within? · path') := by
  induction path generalizing v with
  | nil => rw [within?_nil]; rfl
  | cons k path ih =>
    cases v with
    | map es => simp only [List.cons_append,within?,ih,Option.bind_assoc]
    | scalar _ | list _ | pair _ _ | set _ => rfl

theorem exists_of_isMap (h : ¬ v.isMap = false) : ∃ es, v = map es := by
  cases v with
  | map es => exact ⟨es,rfl⟩
  | scalar _ | list _ | pair _ _ | set _ => exact absurd rfl h

theorem overlay_map (es ds : Entries) : (map es).overlay (map ds) = map (Entries.overlay es ds) := by
  rw [overlay]

/-- Only a mapping on a mapping leaves anything of what is below. -/
theorem overlay_of_not_map (h : b.isMap = false ∨ o.isMap = false) : b.overlay o = o := by
  cases b <;> cases o <;> first | rfl | simp [isMap] at h

theorem overlay_empty (es : Entries) : (map es).overlay (map []) = map es := by
  rw [overlay_map,Entries.overlay]

theorem empty_overlay {ds : Entries} (h : (map ds).Proper) : (map []).overlay (map ds) = map ds := by
  cases h with
  | map hkeys _ =>
    rw [overlay_map,Entries.overlay_of_apart hkeys fun _ _ => rfl,List.nil_append]

theorem overlay_twice (h : o.Proper) (b : Value) : (b.overlay o).overlay o = b.overlay o := by
  induction h generalizing b with
  | @map ds hkeys _ ih =>
    have hfind : ∀ e ∈ ds, Entries.find? ds e.1 = some e.2 := fun e he =>
      Entries.find?_of_mem hkeys he (Scalar.sameKey_self e.1)
    have hself : ∀ e ∈ ds, e.2.overlay e.2 = e.2 := by
      intro e he
      -- laid on what is no mapping the value is all that is left
      have hnull := ih e he .null
      rwa [overlay_of_not_map (b := .null) (.inl rfl)] at hnull
    by_cases hb : b.isMap = false
    · rw [overlay_of_not_map (.inl hb),overlay_map,
        Entries.overlay_eq_self fun e he => ⟨e.2,hfind e he,hself e he⟩]
    · obtain ⟨es,rfl⟩ := exists_of_isMap hb
      rw [overlay_map,overlay_map,Entries.overlay_eq_self fun e he => ?_]
      refine ⟨_,by rw [Entries.find?_overlay hkeys,hfind e he],?_⟩
      cases Entries.find? es e.1 with
      | none => exact hself e he
      | some w => exact ih e he w
  | scalar _ | list _ | pair _ _ | set _ =>
    rw [overlay_of_not_map (b := b) (.inr rfl),overlay_of_not_map (.inr rfl)]

/-- At a path that leads somewhere in the mapping on top. -/
theorem within?_overlay (h : o.Proper) {path : List Scalar} (hv : o.within? path = some v)
    (b : Value) : (b.overlay o).within? path = some (Entries.laid (b.within? path) v) := by
  induction path generalizing b o with
  | nil =>
    rw [within?_nil,Option.some.injEq] at hv
    rw [within?_nil,within?_nil,hv]
    rfl
  | cons k path ih =>
    cases h with
    | @map ds hkeys hvalues =>
      obtain ⟨x,hx,hpath⟩ := Option.bind_eq_some_iff.mp hv
      obtain ⟨e,he,-,rfl⟩ := Entries.exists_of_find? hx
      by_cases hb : b.isMap = false
      · rw [overlay_of_not_map (.inl hb),hv,within?_cons_of_not_map hb]
        rfl
      · obtain ⟨es,rfl⟩ := exists_of_isMap hb
        rw [overlay_map,within?,Entries.find?_overlay hkeys,hx,within?]
        cases Entries.find? es k with
        | none => exact hpath
        | some w => exact ih (hvalues e he) hpath w
    | scalar _ | list _ | pair _ _ | set _ => cases hv

theorem Proper.of_within? (h : o.Proper) {path : List Scalar} (hv : o.within? path = some v) :
    v.Proper := by
  induction path generalizing o with
  | nil =>
    rw [within?_nil,Option.some.injEq] at hv
    exact hv ▸ h
  | cons k path ih =>
    cases h with
    | map _ hvalues =>
      obtain ⟨x,hx,hpath⟩ := Option.bind_eq_some_iff.mp hv
      obtain ⟨e,he,-,rfl⟩ := Entries.exists_of_find? hx
      exact ih (hvalues e he) hpath
    | scalar _ | list _ | pair _ _ | set _ => cases hv

/-- Both have a mapping at a path. -/
def MeetAt (b o : Value) (path : List Scalar) : Prop :=
  ∃ es ds, b.within? path = some (.map es) ∧ o.within? path = some (.map ds)

theorem laid_of_not_meetAt {path : List Scalar} (hv : o.within? path = some v)
    (h : ¬ MeetAt b o path) : Entries.laid (b.within? path) v = v := by
  cases hw : b.within? path with
  | none => rfl
  | some w =>
    refine overlay_of_not_map ?_
    by_contra hmaps
    rw [not_or] at hmaps
    obtain ⟨es,rfl⟩ := exists_of_isMap hmaps.1
    obtain ⟨ds,rfl⟩ := exists_of_isMap hmaps.2
    exact h ⟨es,ds,hw,hv⟩

/-- How far a path leads: the longest of its starts at which there is something. -/
structure LeadsTo (v : Value) (path start : List Scalar) : Prop where
  begins : start <+: path
  found : (v.within? start).isSome = true
  longest : ∀ other, other <+: path → (v.within? other).isSome = true →
    other.length ≤ start.length

theorem exists_leadsTo (v : Value) (path : List Scalar) : ∃ start, v.LeadsTo path start := by
  induction path generalizing v with
  | nil => exact ⟨[],List.nil_prefix,by simp,fun other h _ => h.length_le⟩
  | cons k path ih =>
    have hfirst : ∀ rest, v.within? (k :: rest) = (v.within? [k]).bind (within? · rest) :=
      fun rest => within?_append v [k] rest
    cases hk : v.within? [k] with
    | none =>
      refine ⟨[],List.nil_prefix,by simp,fun other hother hsome => ?_⟩
      obtain rfl | ⟨rest,rfl,-⟩ := List.prefix_cons_iff.mp hother
      · exact le_rfl
      · rw [hfirst,hk] at hsome
        cases hsome
    | some w =>
      obtain ⟨start,hbegins,hfound,hlongest⟩ := ih w
      refine ⟨k :: start,List.cons_prefix_cons.mpr ⟨rfl,hbegins⟩,?_,fun other hother hsome => ?_⟩
      · rw [hfirst,hk]
        exact hfound
      · obtain rfl | ⟨rest,rfl,hrest⟩ := List.prefix_cons_iff.mp hother
        · exact Nat.zero_le _
        · rw [hfirst,hk] at hsome
          exact Nat.succ_le_succ (hlongest rest hrest hsome)

/-- Where a path leads no further there is something, but not under the next key. -/
theorem LeadsTo.split {path start : List Scalar} (h : v.LeadsTo path start)
    (hpath : v.within? path = none) :
    ∃ w k rest, v.within? start = some w ∧ path = start ++ k :: rest ∧ w.within? [k] = none := by
  obtain ⟨w,hw⟩ := Option.isSome_iff_exists.mp h.found
  obtain ⟨rest,rfl⟩ := h.begins
  cases rest with
  | nil =>
    rw [List.append_nil,hw] at hpath
    cases hpath
  | cons k rest =>
    refine ⟨w,k,rest,hw,rfl,?_⟩
    by_contra hk
    have hsome : (v.within? (start ++ [k])).isSome = true := by
      rw [within?_append,hw]
      exact Option.isSome_iff_ne_none.mpr hk
    have hlength := h.longest _ (List.prefix_append_right_inj start |>.mpr (by simp)) hsome
    rw [List.length_append,List.length_singleton] at hlength
    omega

theorem within?_overlay_of_leadsTo (h : o.Proper) {path start : List Scalar}
    (hpath : o.within? path = none) (hstart : o.LeadsTo path start) (b : Value) :
    (MeetAt b o start → (b.overlay o).within? path = b.within? path) ∧
      (¬ MeetAt b o start → (b.overlay o).within? path = none) := by
  obtain ⟨w,k,rest,hw,rfl,hk⟩ := hstart.split hpath
  have hlaid : (b.overlay o).within? (start ++ k :: rest) =
      (Entries.laid (b.within? start) w).within? (k :: rest) := by
    rw [within?_append,within?_overlay h hw]
    rfl
  refine ⟨fun hmeet => ?_,fun hmeet => ?_⟩
  · obtain ⟨es,ds,hes,hds⟩ := hmeet
    obtain rfl : w = .map ds := Option.some.inj (hw.symm.trans hds)
    have hnone : Entries.find? ds k = none := by simpa [within?] using hk
    rw [hlaid,within?_append b,hes,Entries.laid,overlay_map]
    cases h.of_within? hw with
    | map hkeys _ =>
      simp only [within?,Entries.find?_overlay hkeys,hnone,Option.bind_some]
  · rw [hlaid,laid_of_not_meetAt hw hmeet,← List.singleton_append,within?_append,hk]
    rfl

end Value

/-- A mapping laid over another. At a path at which both have mappings there is a mapping under the
keys of both, those of the one below first; at any other path that leads somewhere in the top there
is what the top has. A path that leads to nothing in the top leads where it leads below if it leaves
the top in a mapping that lies on a mapping, and else to nothing. So nothing is lost that is not
covered; laying the top on again changes nothing, and neither does an empty mapping. -/
theorem overlay_is_a_deep_merge (below top : Entries) (h : (Value.map top).Proper) :
    let b := Value.map below
    let o := Value.map top
    let m := b.overlay o
    (∀ path es ds, b.within? path = some (.map es) → o.within? path = some (.map ds) →
      ∃ ms, m.within? path = some (.map ms) ∧
        ms.map (·.1) = es.map (·.1) ++ (ds.map (·.1)).filter fun k => !Entries.has es k) ∧
    (∀ path v, o.within? path = some v → ¬ b.MeetAt o path → m.within? path = some v) ∧
    (∀ path, o.within? path = none → (∃ start, o.LeadsTo path start) ∧
      ∀ start, o.LeadsTo path start →
        (b.MeetAt o start → m.within? path = b.within? path) ∧
        (¬ b.MeetAt o start → m.within? path = none)) ∧
    (∀ path v, b.within? path = some v → o.within? path = none →
      (∀ start w, start <+: path → o.within? start = some w → w.isMap = true) →
      m.within? path = some v) ∧
    m.overlay o = m ∧ b.overlay (.map []) = b ∧ (Value.map []).overlay o = o := by
  intro b o m
  refine ⟨fun path es ds hes hds => ?_,fun path v hv hmeet => ?_,fun path hpath => ?_,
    fun path v hv hpath huncovered => ?_,Value.overlay_twice h b,Value.overlay_empty below,
    Value.empty_overlay h⟩
  · have hpath := Value.within?_overlay h hds b
    rw [hes,Entries.laid,Value.overlay_map] at hpath
    cases h.of_within? hds with
    | map hkeys _ => exact ⟨_,hpath,Entries.keys_overlay hkeys es⟩
  · exact (Value.within?_overlay h hv b).trans
      (congrArg some (Value.laid_of_not_meetAt hv hmeet))
  · exact ⟨Value.exists_leadsTo o path,
      fun start hstart => Value.within?_overlay_of_leadsTo h hpath hstart b⟩
  · obtain ⟨start,hstart⟩ := Value.exists_leadsTo o path
    refine ((Value.within?_overlay_of_leadsTo h hpath hstart b).1 ?_).trans hv
    obtain ⟨w,k,rest,hw,rfl,-⟩ := hstart.split hpath
    obtain ⟨ds,rfl⟩ := Value.exists_of_isMap (v := w) (by simp [huncovered start w hstart.begins hw])
    rw [Value.within?_append] at hv
    obtain ⟨x,hx,hrest⟩ := Option.bind_eq_some_iff.mp hv
    cases x with
    | map es => exact ⟨es,ds,hx,hw⟩
    | scalar _ | list _ | pair _ _ | set _ => cases hrest

section Example

def Value.stagingBase : Entries :=
  [(.str "app",.obj [("name",.str "shop")]),
    (.str "evaluation",.obj [("enabled",.bool true),("qa_mode",.bool false)])]

def Value.stagingTop : Entries :=
  [(.str "evaluation",.obj [("qa_mode",.bool true),("url",.str "")]),(.str "log",.null)]

theorem staging_keeps_what_it_does_not_cover :
    let m := (Value.map Value.stagingBase).overlay (.map Value.stagingTop)
    (Value.map Value.stagingTop).Proper ∧
      m.within? [.str "evaluation",.str "enabled"] = some (.bool true) ∧
      m.within? [.str "evaluation",.str "qa_mode"] = some (.bool true) ∧
      m.overlay (.map Value.stagingTop) = m := by
  have hproper : (Value.map Value.stagingTop).Proper := by
    refine .map (by simp [Scalar.Distinct,Value.stagingTop]) ?_
    rw [Value.stagingTop,List.forall_mem_cons,List.forall_mem_singleton]
    refine ⟨.map (by simp [Scalar.Distinct]) ?_,.scalar .null⟩
    simpa using ⟨Value.Proper.scalar (.bool true),Value.Proper.scalar (.str "")⟩
  have huncovered : ∀ start ∈ [Scalar.str "evaluation",.str "enabled"].inits,
      ((Value.map Value.stagingTop).within? start).all Value.isMap = true := by
    decide
  obtain ⟨-,hcovered,-,hkept,htwice,-⟩ :=
    overlay_is_a_deep_merge Value.stagingBase Value.stagingTop hproper
  refine ⟨hproper,hkept _ _ rfl rfl fun start w hstart hw => ?_,hcovered _ _ rfl ?_,htwice⟩
  · have hmap := huncovered start ((List.mem_inits start _).mpr hstart)
    rwa [hw] at hmap
  · rintro ⟨es,ds,hes,-⟩
    cases hes

end Example

end FlagEngine
