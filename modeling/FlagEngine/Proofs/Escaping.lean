import FlagEngine.Proofs.Encodings
import FlagEngine.Url.Query

/-! Texts written into a query. A text may be written in many ways: what is not reserved stands for
itself, a blank may be a plus sign, and everything may be escaped, byte by byte. All of them are
read back as the same text, and none contains what divides the query. -/
namespace FlagEngine

theorem Utf8.decodeLenient_encode (cs : List Char) : decodeLenient (encode cs) = cs := by
  rw [decodeLenient,pieces_encode,List.map_map]
  exact List.map_id cs

theorem Utf8.encode_ascii {c : Char} (h : c.val < 0x80) : encode [c] = [UInt8.ofNat c.toNat] := by
  have hsmall : c.val.toNat ≤ 127 := Nat.le_of_lt_succ (UInt32.lt_iff_toNat_lt.mp h)
  simp only [encode,List.flatMap_cons,List.flatMap_nil,List.append_nil,String.utf8EncodeChar,
    if_pos hsmall]
  rfl

namespace Query

/-- What divides a query, or is not read in it as it stands. -/
def isReserved (c : Char) : Bool := ['%','&','=','+','#','\t','\r','\n'].contains c

/-- A hexadecimal digit, small or capital. -/
def HexDigit (n : Nat) (c : Char) : Prop := c = Nat.digitChar n ∨ c = (Nat.digitChar n).toUpper

/-- For each byte a percent sign and its two hexadecimal digits. -/
inductive Escapes : List UInt8 → List Char → Prop
  | nil : Escapes [] []
  | cons {b : UInt8} {bs : List UInt8} {high low : Char} {es : List Char}
      (hhigh : HexDigit (b.toNat / 16) high) (hlow : HexDigit (b.toNat % 16) low)
      (h : Escapes bs es) : Escapes (b :: bs) ('%' :: high :: low :: es)

/-- The ways to write a text. -/
inductive Writes : List Char → List Char → Prop
  | nil : Writes [] []
  | plain {c : Char} {cs ds : List Char} (hc : isReserved c = false) (h : Writes cs ds) :
      Writes (c :: cs) (c :: ds)
  | blank {cs ds : List Char} (h : Writes cs ds) : Writes (' ' :: cs) ('+' :: ds)
  | escaped {c : Char} {cs es ds : List Char} (he : Escapes (Utf8.encode [c]) es)
      (h : Writes cs ds) : Writes (c :: cs) (es ++ ds)

theorem HexDigit.spec {n : Nat} {c : Char} (hn : n < 16) (h : HexDigit n c) :
    hex? c = some n ∧ c.val < 0x80 ∧ isReserved c = false := by
  interval_cases n <;> rcases h with rfl | rfl <;> decide

theorem Escapes.mem {bs : List UInt8} {es : List Char} (h : Escapes bs es) :
    ∀ c ∈ es, c = '%' ∨ c.val < 0x80 ∧ isReserved c = false := by
  induction h with
  | nil => simp
  | @cons b _ _ _ _ hhigh hlow _ ih =>
    have hb := b.toNat_lt
    rw [List.forall_mem_cons,List.forall_mem_cons,List.forall_mem_cons]
    exact ⟨.inl rfl,.inr (hhigh.spec (by omega)).2,.inr (hlow.spec (by omega)).2,ih⟩

theorem exists_escapes (bs : List UInt8) : ∃ es, Escapes bs es := by
  induction bs with
  | nil => exact ⟨[],.nil⟩
  | cons b bs ih =>
    obtain ⟨es,hes⟩ := ih
    exact ⟨_,.cons (.inl rfl) (.inl rfl) hes⟩

theorem exists_writes (cs : List Char) : ∃ ds, Writes cs ds := by
  induction cs with
  | nil => exact ⟨[],.nil⟩
  | cons c cs ih =>
    obtain ⟨ds,hds⟩ := ih
    obtain ⟨es,hes⟩ := exists_escapes (Utf8.encode [c])
    exact ⟨es ++ ds,.escaped hes hds⟩

/-- Nothing that divides a query is in a written text. -/
theorem Writes.mem {cs ds : List Char} (h : Writes cs ds) :
    ∀ d ∈ ds, d = '%' ∨ d = '+' ∨ isReserved d = false := by
  induction h with
  | nil => simp
  | plain hc _ ih => exact List.forall_mem_cons.mpr ⟨.inr (.inr hc),ih⟩
  | blank _ ih => exact List.forall_mem_cons.mpr ⟨.inr (.inl rfl),ih⟩
  | escaped he _ ih =>
    intro d hd
    obtain hd | hd := List.mem_append.mp hd
    · exact (he.mem d hd).imp_right fun h => .inr h.2
    · exact ih d hd

theorem Writes.eq_nil_iff {cs ds : List Char} (h : Writes cs ds) : ds = [] ↔ cs = [] := by
  cases h with
  | @escaped c _ es ds he _ =>
    have hne : es ≠ [] := by
      rintro rfl
      generalize hbytes : Utf8.encode [c] = bytes at he
      cases he
      simp [Utf8.encode,String.utf8EncodeChar_ne_nil] at hbytes
    simp [hne]
  | _ => simp

/-! Bytes are read back. -/

theorem unescape_cons {c : Char} (h : c ≠ '%') (cs : List Char) :
    unescape (c :: cs) = UInt8.ofNat c.toNat :: unescape cs := by
  rw [unescape]
  rintro a b cs rfl
  exact absurd rfl h

theorem unescape_append {bs : List UInt8} {es : List Char} (h : Escapes bs es) (cs : List Char) :
    unescape (es ++ cs) = bs ++ unescape cs := by
  induction h with
  | nil => rfl
  | @cons b bs high low es hhigh hlow _ ih =>
    have hb := b.toNat_lt
    have hbyte : UInt8.ofNat (16 * (b.toNat / 16) + b.toNat % 16) = b := by
      rw [Nat.div_add_mod,UInt8.ofNat_toNat]
    simp only [List.cons_append,unescape,(hhigh.spec (by omega)).1,(hlow.spec (by omega)).1,hbyte,ih]

/-- A run that ends where a character ends: it stands for the characters, whatever follows. -/
def Stands (run : List Char) (cs : List Char) : Prop :=
  ∀ rest, unescape (run.reverse ++ rest) = Utf8.encode cs ++ unescape rest

theorem Stands.nil : Stands [] [] := fun _ => rfl

theorem Stands.ascii {run cs : List Char} (h : Stands run cs) {c : Char} (hc : c.val < 0x80)
    (hne : c ≠ '%') : Stands (c :: run) (cs ++ [c]) := by
  intro rest
  rw [List.reverse_cons,List.append_assoc,List.singleton_append,h,unescape_cons hne,
    Utf8.encode_append,Utf8.encode_ascii hc,List.append_assoc,List.singleton_append]

theorem Stands.escaped {run cs es : List Char} (h : Stands run cs) {c : Char}
    (he : Escapes (Utf8.encode [c]) es) : Stands (es.reverse ++ run) (cs ++ [c]) := by
  intro rest
  rw [List.reverse_append,List.reverse_reverse,List.append_assoc,h,unescape_append he,
    Utf8.encode_append,List.append_assoc]

theorem Stands.decode {run cs : List Char} (h : Stands run cs) :
    Utf8.decodeLenient (unescape run.reverse) = cs := by
  have hrun := h []
  rw [List.append_nil,unescape,List.append_nil] at hrun
  rw [hrun,Utf8.decodeLenient_encode]

theorem decodeRuns_ascii {es : List Char} (hes : ∀ c ∈ es, c.val < 0x80) (run cs : List Char) :
    decodeRuns run (es ++ cs) = decodeRuns (es.reverse ++ run) cs := by
  induction es generalizing run with
  | nil => rfl
  | cons e es ih =>
    rw [List.forall_mem_cons] at hes
    rw [List.cons_append,decodeRuns,if_pos hes.1,ih hes.2,List.reverse_cons,List.append_assoc,
      List.singleton_append]

/-- A plus sign is read as a blank. -/
def plusAsBlank (c : Char) : Char := if c = '+' then ' ' else c

theorem map_plusAsBlank {es : List Char} (h : ∀ c ∈ es, c ≠ '+') : es.map plusAsBlank = es :=
  (List.map_congr_left fun c hc => if_neg (h c hc)).trans (List.map_id es)

theorem ne_of_not_reserved {c : Char} (h : isReserved c = false) : c ≠ '%' ∧ c ≠ '+' := by
  constructor <;> rintro rfl <;> cases h

/-- Behind a run that stands for some characters a written text is read as its own. -/
theorem decodeRuns_of_writes {cs ds : List Char} (h : Writes cs ds) {run done : List Char}
    (hrun : Stands run done) : decodeRuns run (ds.map plusAsBlank) = done ++ cs := by
  induction h generalizing run done with
  | nil => rw [List.map_nil,decodeRuns,hrun.decode,List.append_nil]
  | @plain c cs ds hc _ ih =>
    obtain ⟨hpercent,hplus⟩ := ne_of_not_reserved hc
    rw [List.map_cons,plusAsBlank,if_neg hplus,decodeRuns]
    split
    · next hascii => rw [ih (hrun.ascii hascii hpercent),List.append_assoc,List.singleton_append]
    · rw [ih Stands.nil,hrun.decode,List.nil_append]
  | @blank cs ds _ ih =>
    have hblank : plusAsBlank '+' = ' ' := rfl
    rw [List.map_cons,hblank,decodeRuns,if_pos (by decide),
      ih (hrun.ascii (by decide) (by decide)),List.append_assoc,List.singleton_append]
  | @escaped c cs es ds he _ ih =>
    have hascii : ∀ e ∈ es, e.val < 0x80 := fun e hmem =>
      (he.mem e hmem).elim (fun h => h ▸ by decide) And.left
    have hplus : ∀ e ∈ es, e ≠ '+' := fun e hmem =>
      (he.mem e hmem).elim (fun h => h ▸ by decide) fun h => (ne_of_not_reserved h.2).2
    rw [List.map_append,map_plusAsBlank hplus,decodeRuns_ascii hascii,ih (hrun.escaped he),
      List.append_assoc,List.singleton_append]

theorem decode_of_writes {cs ds : List Char} (h : Writes cs ds) : decode ds = cs :=
  decodeRuns_of_writes h Stands.nil

end Query
end FlagEngine
