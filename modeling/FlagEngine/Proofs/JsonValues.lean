import FlagEngine.Proofs.LongIntegers
import FlagEngine.Proofs.Stumbling

/-! Values that are read from JSON can be written: an integer of more digits than are written is not
read either, and a list has no more items than its text has characters. -/
namespace FlagEngine

theorem Literal.natOf_lt {ds : List Char} (h : ∀ c ∈ ds, c.isDigit = true) :
    natOf ds < 10 ^ ds.length := by
  have hfold : ∀ m, ds.foldl (fun n d => 10 * n + (d.toNat - 48)) m < (m + 1) * 10 ^ ds.length := by
    induction ds with
    | nil => simp
    | cons c ds ih =>
      rw [List.forall_mem_cons] at h
      intro m
      have hdigit : c.toNat ≤ 57 := by
        have hc := h.1
        simp only [Char.isDigit,Bool.and_eq_true,decide_eq_true_eq] at hc
        exact hc.2
      have hrest := ih h.2 (10 * m + (c.toNat - 48))
      have hroom : 10 * m + (c.toNat - 48) + 1 ≤ 10 * (m + 1) := by omega
      rw [List.foldl_cons,List.length_cons]
      calc
        _ < (10 * m + (c.toNat - 48) + 1) * 10 ^ ds.length := hrest
        _ ≤ 10 * (m + 1) * 10 ^ ds.length := Nat.mul_le_mul_right _ hroom
        _ = (m + 1) * 10 ^ (ds.length + 1) := by ring
  simpa [natOf] using hfold 0

theorem Entries.writable_put {es : Entries} (h : ∀ e ∈ es, e.2.Writable) (key : Scalar) {v : Value}
    (hv : v.Writable) : ∀ e ∈ es.put key v, e.2.Writable := by
  induction es with
  | nil => exact List.forall_mem_singleton.mpr hv
  | cons e es ih =>
    obtain ⟨k,w⟩ := e
    obtain ⟨hw,hes⟩ := List.forall_mem_cons.mp h
    unfold put
    split
    · exact List.forall_mem_cons.mpr ⟨hv,hes⟩
    · exact List.forall_mem_cons.mpr ⟨hw,ih hes⟩

namespace Json

/-- Whatever is read is so. -/
def Gives {α : Type} (P : α → Prop) (x : Except Failure α) : Prop := ∀ y, x = .ok y → P y

variable {α β : Type} {P : α → Prop} {Q : β → Prop} {text cs rest : List Char} {n : Nat}

theorem Gives.ok {y : α} (h : P y) : Gives P (.ok y) := by
  rintro _ ⟨⟩
  exact h

theorem Gives.error (f : Failure) : Gives P (.error f) := nofun

theorem Gives.and {P' : α → Prop} {x : Except Failure α} (h : Gives P x) (h' : Gives P' x) :
    Gives (fun y => P y ∧ P' y) x :=
  fun y hy => ⟨h y hy,h' y hy⟩

theorem Gives.bind {x : Except Failure α} {g : α → Except Failure β} (hx : Gives P x)
    (hg : ∀ y, P y → Gives Q (g y)) : Gives Q (x >>= g) := by
  cases x with
  | error f => exact .error f
  | ok y => exact hg y (hx y rfl)

/-! What is left of a text is no longer than the text. -/

theorem At.length_le {s : Lexing} (h : At s text rest) : rest.length ≤ text.length := by
  obtain ⟨pre,rfl,-⟩ := h
  simp

theorem Reads.gives {x : Except Failure (Rest α)} (h : Reads text x) :
    Gives (fun r => r.2.length ≤ text.length) x := by
  cases h with
  | ok h => exact .ok h.length_le
  | fails => exact .error _

theorem length_skip (cs : List Char) : (skip cs).length ≤ cs.length :=
  (List.dropWhile_sublist isBlank).length_le

theorem length_value (n : Nat) (cs : List Char) :
    Gives (fun r => r.2.length ≤ cs.length) (value n none cs) :=
  ((reads_parts n).1 cs (.start cs)).gives

theorem length_string (n : Nat) (cs : List Char) :
    Gives (fun r => r.2.length ≤ cs.length + 1) (string n [] cs) := by
  have hopen : At .inside ('"' :: cs) cs := ⟨['"'],rfl,rfl⟩
  exact (reads_string n [] hopen).gives

/-! What is read can be written. -/

theorem writable_integer {digits : List Char} (hdigits : ∀ c ∈ digits, c.isDigit = true)
    (hshort : ¬ Number.maxDigits < digits.length) (neg : Bool) :
    (Value.int (if neg then -Literal.natOf digits else Literal.natOf digits)).Writable := by
  have hlt : Literal.natOf digits < 10 ^ Number.maxDigits :=
    Nat.lt_of_lt_of_le (Literal.natOf_lt hdigits)
      (Nat.pow_le_pow_right (by decide) (Nat.le_of_not_lt hshort))
  refine .scalar (Number.not_isOverlong_of_lt ?_)
  cases neg <;> simpa using hlt

theorem writable_number (neg : Bool) (cs : List Char) :
    Gives (fun r => r.1.Writable) (number neg cs) := by
  rcases hwhole : wholePart cs with _ | ⟨digits,rest⟩
  · simp only [number,hwhole]
    exact .error _
  obtain ⟨-,hdigits,-⟩ := exists_wholePart hwhole
  simp only [number,hwhole]
  rcases fractionPart rest with _ | ⟨ds,r⟩ <;> dsimp only
  · rcases exponentPart rest with _ | ⟨e,r⟩ <;> dsimp only
    · simp only [Option.isNone_none,Bool.and_self,if_true]
      split
      · exact .error _
      · next hshort => exact .ok (writable_integer hdigits hshort neg)
    · exact .ok (.scalar rfl)
  · rcases exponentPart r with _ | ⟨e,r'⟩ <;> exact .ok (.scalar rfl)

theorem writable_atom (cs : List Char) : Gives (fun r => r.1.Writable) (atom cs) := by
  unfold atom
  split
  · exact .ok (.scalar rfl)
  · exact .ok (.scalar rfl)
  · exact .ok (.scalar rfl)
  · exact .ok (.scalar rfl)
  · exact .ok (.scalar rfl)
  · exact .ok (.scalar rfl)
  · exact writable_number true _
  · exact writable_number false _

section Parts

variable {bound : Nat}

/-! With so much fuel, what is read of a text within the bound can be written. The items that were
read and the text that is left never come to more than the bound. -/

def ValuesWritable (bound n : Nat) : Prop :=
  ∀ cs, cs.length ≤ bound → Gives (fun r => r.1.Writable) (value n none cs)

def ItemsWritable (bound n : Nat) : Prop :=
  ∀ acc cs, acc.length + cs.length ≤ bound → (∀ x ∈ acc, x.Writable) →
    Gives (fun r => (Value.list r.1).Writable) (items n none acc cs)

def EntriesWritable (bound n : Nat) : Prop :=
  ∀ acc cs, cs.length ≤ bound → (∀ e ∈ acc, e.2.Writable) →
    Gives (fun r => (Value.map r.1).Writable) (entries n none acc cs)

theorem valuesWritable_succ (hitems : ItemsWritable bound n) (hentries : EntriesWritable bound n) :
    ValuesWritable bound (n + 1) := by
  intro cs hcs
  unfold value
  split
  · exact (length_string _ _).bind fun r _ => .ok (.scalar rfl)
  · next rest =>
    have hinner := length_skip rest
    rw [List.length_cons] at hcs
    rw [enter_none_bind]
    dsimp only
    split
    · exact .ok (.list (by decide) (List.forall_mem_nil _))
    · exact (hitems [] _ (by rw [List.length_nil]; omega) (List.forall_mem_nil _)).bind
        fun r hr => .ok hr
  · next rest =>
    have hinner := length_skip rest
    rw [List.length_cons] at hcs
    rw [enter_none_bind]
    dsimp only
    split
    · exact .ok (.map (List.forall_mem_nil _))
    · exact (hentries [] _ (by omega) (List.forall_mem_nil _)).bind fun r hr => .ok hr
  · exact writable_atom _

theorem itemsWritable_succ (hbound : bound < 10 ^ Number.maxDigits)
    (hvalues : ValuesWritable bound n) (hitems : ItemsWritable bound n) :
    ItemsWritable bound (n + 1) := by
  intro acc cs hcs hacc
  unfold items
  refine ((hvalues cs (by omega)).and (length_value n cs)).bind fun r hr => ?_
  obtain ⟨hvalue,hleft⟩ := hr
  have hrest := length_skip r.2
  have hmembers := List.forall_mem_cons.mpr ⟨hvalue,hacc⟩
  dsimp only
  split
  · next hskip =>
    rw [hskip,List.length_cons] at hrest
    have hcount : (r.1 :: acc).reverse.length ≤ bound := by
      rw [List.length_reverse,List.length_cons]
      omega
    exact .ok (.list (Number.not_isOverlong_of_lt (Nat.lt_of_le_of_lt hcount hbound))
      fun x hx => hmembers x (List.mem_reverse.mp hx))
  · next rest hskip =>
    rw [hskip,List.length_cons] at hrest
    have hnext := length_skip rest
    exact hitems _ _ (by rw [List.length_cons]; omega) hmembers
  · exact .error _

theorem entriesWritable_succ (hvalues : ValuesWritable bound n)
    (hentries : EntriesWritable bound n) : EntriesWritable bound (n + 1) := by
  intro acc cs hcs hacc
  unfold entries
  split
  · rw [List.length_cons] at hcs
    refine (length_string _ _).bind fun r hr => ?_
    have hcolon := length_skip r.2
    dsimp only
    split
    · next rest hskip =>
      rw [hskip,List.length_cons] at hcolon
      have hinner := length_skip rest
      refine ((hvalues _ (by omega)).and (length_value n _)).bind fun r' hr' => ?_
      obtain ⟨hvalue,hleft⟩ := hr'
      have hrest := length_skip r'.2
      have hput := Entries.writable_put hacc (.str r.1) hvalue
      split
      · exact .ok (.map hput)
      · next rest' hskip' =>
        rw [hskip',List.length_cons] at hrest
        have hnext := length_skip rest'
        exact hentries _ _ (by omega) hput
      · exact .error _
    · exact .error _
  · exact .error _

theorem writable_parts (hbound : bound < 10 ^ Number.maxDigits) (n : Nat) :
    ValuesWritable bound n ∧ ItemsWritable bound n ∧ EntriesWritable bound n := by
  induction n with
  | zero => exact ⟨fun _ _ => .error _,fun _ _ _ _ => .error _,fun _ _ _ _ => .error _⟩
  | succ n ih =>
    obtain ⟨hvalues,hitems,hentries⟩ := ih
    exact ⟨valuesWritable_succ hitems hentries,itemsWritable_succ hbound hvalues hitems,
      entriesWritable_succ hvalues hentries⟩

end Parts

/-- Whatever is read of a text can be written, if the length of the text can be. -/
theorem writable_of_read {text : String} (htext : text.length < 10 ^ Number.maxDigits) {v : Value}
    (h : read text = .ok v) : v.Writable := by
  have hgives : Gives (fun v => v.Writable) (read text) := by
    unfold read readWithin
    have hbound : text.toList.length < 10 ^ Number.maxDigits := by rwa [String.length_toList]
    refine ((writable_parts hbound _).1 _ (length_skip _)).bind fun r hr => ?_
    dsimp only
    split
    · exact .ok hr
    · exact .error _
  exact hgives v h

end Json

/-- Put to attributes that are read from JSON every condition comes to an answer. -/
theorem Condition.test_of_read {text : String} (htext : text.length < 10 ^ Number.maxDigits)
    {a : Value} (h : Json.read text = .ok a) (c : Condition) : c.test a = .ok (c.holds a) :=
  c.test_of_writable (Json.writable_of_read htext h)

end FlagEngine
