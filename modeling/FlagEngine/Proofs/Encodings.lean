import FlagEngine.Base64
import FlagEngine.Text.Utf8
import Mathlib.Data.List.TakeDrop
import Mathlib.Tactic.Common
import Mathlib.Tactic.IntervalCases

/-! Encodings are read back. In base64 the sextets of the bytes are spelled one by one, with padding
behind them; in UTF-8 a first byte says how many follow, and each of those adds its six bits, and
what is refused there is the bytes of no text. -/
namespace FlagEngine

/-- A stretch that satisfies a test is split off before what does not begin with such an item. -/
theorem span_append {α : Type} {p : α → Bool} {xs ys : List α} (hxs : ∀ x ∈ xs, p x = true)
    (hys : ∀ y ∈ ys.head?, p y = false) : (xs ++ ys).span p = (xs,ys) := by
  rw [List.span_eq_takeWhile_dropWhile,List.takeWhile_append_of_pos hxs,
    List.dropWhile_append_of_pos hxs]
  cases ys with
  | nil => simp
  | cons y ys => simp [hys y rfl]

namespace Base64

/-- Six bits at a time, as base64 has them. -/
def sextets : List UInt8 → List Nat
  | a :: b :: c :: rest =>
    a.toNat / 4 :: (a.toNat % 4 * 16 + b.toNat / 16) :: (b.toNat % 16 * 4 + c.toNat / 64)
      :: c.toNat % 64 :: sextets rest
  | [a, b] => [a.toNat / 4,a.toNat % 4 * 16 + b.toNat / 16,b.toNat % 16 * 4]
  | [a] => [a.toNat / 4,a.toNat % 4 * 16]
  | [] => []

def padding : List UInt8 → List Char
  | _ :: _ :: _ :: rest => padding rest
  | [_, _] => ['=']
  | [_] => ['=','=']
  | [] => []

theorem encode_eq (bs : List UInt8) : encode bs = (sextets bs).map digit ++ padding bs := by
  fun_induction sextets bs with
  | case1 a b c rest ih => simp [encode,padding,ih]
  | case2 a b => rfl
  | case3 a => rfl
  | case4 => rfl

theorem lt_of_mem_sextets {bs : List UInt8} : ∀ n ∈ sextets bs, n < 64 := by
  fun_induction sextets bs with
  | case1 a b c rest ih =>
    have ha := a.toNat_lt
    have hb := b.toNat_lt
    have hc := c.toNat_lt
    simp only [List.forall_mem_cons]
    exact ⟨by omega,by omega,by omega,by omega,ih⟩
  | case2 a b =>
    have ha := a.toNat_lt
    have hb := b.toNat_lt
    simp only [List.forall_mem_cons]
    exact ⟨by omega,by omega,by omega,by simp⟩
  | case3 a =>
    have ha := a.toNat_lt
    simp only [List.forall_mem_cons]
    exact ⟨by omega,by omega,by simp⟩
  | case4 => simp

theorem byte_eq {n : Nat} {b : UInt8} (h : n % 256 = b.toNat) : byte n = b := by
  rw [byte,← UInt8.toNat_inj,UInt8.toNat_ofNat']
  exact h

theorem join_sextets (bs : List UInt8) : join (sextets bs) = bs := by
  fun_induction sextets bs with
  | case1 a b c rest ih =>
    have ha := a.toNat_lt
    have hb := b.toNat_lt
    have hc := c.toNat_lt
    rw [join,ih,byte_eq (b := a) (by omega),byte_eq (b := b) (by omega),
      byte_eq (b := c) (by omega)]
  | case2 a b =>
    have ha := a.toNat_lt
    have hb := b.toNat_lt
    rw [join,byte_eq (b := a) (by omega),byte_eq (b := b) (by omega)]
  | case3 a =>
    have ha := a.toNat_lt
    rw [join,byte_eq (b := a) (by omega)]
  | case4 => rfl

theorem padded_sextets (bs : List UInt8) :
    padded (sextets bs).length (padding bs).length = true := by
  fun_induction sextets bs with
  | case1 a b c rest ih =>
    have hmod : ((sextets rest).length + 1 + 1 + 1 + 1) % 4 = (sextets rest).length % 4 := by omega
    simp only [padded,List.length_cons,hmod,padding] at ih ⊢
    split at ih <;> simp_all
  | case2 a b => rfl
  | case3 a => rfl
  | case4 => rfl

theorem padding_all (bs : List UInt8) : ∀ c ∈ padding bs, c = '=' := by
  fun_induction padding bs with
  | case1 a b c rest ih => exact ih
  | _ => simp

theorem sextet?_digit {n : Nat} (h : n < 64) : sextet? (digit n) = some n := by
  have hall : ∀ n < 64, sextet? (digit n) = some n := by decide +kernel
  exact hall n h

/-- The alphabet has neither the padding character nor a dot. -/
theorem digit_ne {n : Nat} (h : n < 64) : digit n ≠ '=' ∧ digit n ≠ '.' := by
  have hall : ∀ n < 64, digit n ≠ '=' ∧ digit n ≠ '.' := by decide +kernel
  exact hall n h

theorem mapM_sextet? {ns : List Nat} (h : ∀ n ∈ ns, n < 64) :
    (ns.map digit).mapM sextet? = some ns := by
  induction ns with
  | nil => rfl
  | cons n ns ih =>
    rw [List.forall_mem_cons] at h
    rw [List.map_cons,List.mapM_cons,sextet?_digit h.1,ih h.2]
    rfl

theorem ne_dot_of_mem_encode {bs : List UInt8} : ∀ c ∈ encode bs, c ≠ '.' := by
  intro c hc
  rw [encode_eq,List.mem_append,List.mem_map] at hc
  obtain ⟨n,hn,rfl⟩ | hc := hc
  · exact (digit_ne (lt_of_mem_sextets n hn)).2
  · rw [padding_all bs c hc]
    decide

theorem decode?_encode (bs : List UInt8) : decode? (encode bs) = some bs := by
  have hbody : ∀ c ∈ (sextets bs).map digit, (c != '=') = true := by
    intro c hc
    obtain ⟨n,hn,rfl⟩ := List.mem_map.mp hc
    simpa using (digit_ne (lt_of_mem_sextets n hn)).1
  have hpads : ∀ c ∈ padding bs, (c == '=') = true := fun c hc => by simp [padding_all bs c hc]
  have hspan : (encode bs).span (· != '=') = ((sextets bs).map digit,padding bs) := by
    rw [encode_eq]
    refine span_append hbody fun c hc => ?_
    rw [padding_all bs c (List.mem_of_mem_head? hc)]
    rfl
  unfold decode?
  rw [hspan]
  dsimp only
  rw [List.length_map,padded_sextets,List.all_eq_true.mpr hpads,Bool.and_self,if_pos rfl,
    mapM_sextet? lt_of_mem_sextets,Option.map_some,join_sextets]

end Base64

namespace Utf8

/-! A first byte that others follow. -/

theorem begin_of_lt {n : Nat} (h : n < 0x80) :
    begin (UInt8.ofNat n) = ([some (Char.ofNat n)],none) := by
  have hsmall : (UInt8.ofNat n).toNat = n := by
    rw [UInt8.toNat_ofNat']
    omega
  have hlt : UInt8.ofNat n < 0x80 := by
    rw [UInt8.lt_iff_toNat_lt,hsmall]
    exact h
  rw [begin,if_pos hlt,hsmall]

theorem begin_two {n : Nat} (hlow : 2 ≤ n) (hhigh : n < 32) :
    begin (UInt8.ofNat (n + 192)) = ([],some ⟨n,1,0x80,0xbf⟩) := by
  interval_cases n <;> rfl

/-- Of three bytes the first bounds the second, against forms too long and against surrogates. -/
theorem begin_three {n : Nat} (h : n < 16) : begin (UInt8.ofNat (n + 224)) =
    ([],some ⟨n,2,if n = 0 then 0xa0 else 0x80,if n = 13 then 0x9f else 0xbf⟩) := by
  interval_cases n <;> rfl

/-- Of four bytes the first bounds the second, against forms too long and against what is beyond
the last character. -/
theorem begin_four {n : Nat} (h : n < 5) : begin (UInt8.ofNat (n + 240)) =
    ([],some ⟨n,3,if n = 0 then 0x90 else 0x80,if n = 4 then 0x8f else 0xbf⟩) := by
  interval_cases n <;> rfl

/-! A byte that follows. -/

theorem pieces_follow (code due : Nat) {n : Nat} {low high : UInt8} (hn : n < 64)
    (hlow : low.toNat ≤ n + 128) (hhigh : n + 128 ≤ high.toNat) (bs : List UInt8) :
    pieces (some ⟨code,due,low,high⟩) (UInt8.ofNat (n + 128) :: bs) =
      if due = 1 then some (Char.ofNat (code * 64 + n)) :: pieces none bs
      else pieces (some ⟨code * 64 + n,due - 1,0x80,0xbf⟩) bs := by
  have hvalue : (UInt8.ofNat (n + 128)).toNat = n + 128 := by
    rw [UInt8.toNat_ofNat']
    omega
  have hbounds : low ≤ UInt8.ofNat (n + 128) ∧ UInt8.ofNat (n + 128) ≤ high := by
    rw [UInt8.le_iff_toNat_le,UInt8.le_iff_toNat_le,hvalue]
    exact ⟨hlow,hhigh⟩
  have hbits : (n + 128) % 64 = n := by omega
  simp only [pieces,advance,if_pos hbounds,hvalue,hbits]
  split <;> rfl

theorem pieces_middle (code : Nat) {n : Nat} (hn : n < 64) (bs : List UInt8) :
    pieces (some ⟨code,2,0x80,0xbf⟩) (UInt8.ofNat (n + 128) :: bs) =
      pieces (some ⟨code * 64 + n,1,0x80,0xbf⟩) bs :=
  pieces_follow code 2 hn (by exact Nat.le_add_left 128 n) (by show n + 128 ≤ 191; omega) bs

theorem pieces_last (code : Nat) {n : Nat} (hn : n < 64) (bs : List UInt8) :
    pieces (some ⟨code,1,0x80,0xbf⟩) (UInt8.ofNat (n + 128) :: bs) =
      some (Char.ofNat (code * 64 + n)) :: pieces none bs :=
  pieces_follow code 1 hn (by exact Nat.le_add_left 128 n) (by show n + 128 ≤ 191; omega) bs

/-! The bytes of a character by their number. -/

theorem pieces_two {m n : Nat} (hm : 2 ≤ m ∧ m < 32) (hn : n < 64) (bs : List UInt8) :
    pieces none (UInt8.ofNat (m + 192) :: UInt8.ofNat (n + 128) :: bs) =
      some (Char.ofNat (m * 64 + n)) :: pieces none bs := by
  rw [pieces,advance,begin_two hm.1 hm.2]
  exact pieces_last m hn bs

theorem pieces_three {l m n : Nat} (hl : l < 16) (hm : m < 64) (hn : n < 64)
    (hlow : l = 0 → 32 ≤ m) (hhigh : l = 13 → m < 32) (bs : List UInt8) :
    pieces none (UInt8.ofNat (l + 224) :: UInt8.ofNat (m + 128) :: UInt8.ofNat (n + 128) :: bs) =
      some (Char.ofNat ((l * 64 + m) * 64 + n)) :: pieces none bs := by
  have hlow' : (if l = 0 then 0xa0 else 0x80 : UInt8).toNat ≤ m + 128 := by
    split
    · next h => exact Nat.add_le_add_right (hlow h) 128
    · exact Nat.le_add_left 128 m
  have hhigh' : m + 128 ≤ (if l = 13 then 0x9f else 0xbf : UInt8).toNat := by
    split
    · next h => exact Nat.add_le_add_right (Nat.le_of_lt_succ (hhigh h)) 128
    · exact Nat.add_le_add_right (Nat.le_of_lt_succ hm) 128
  rw [pieces,advance,begin_three hl]
  exact (pieces_follow l 2 hm hlow' hhigh' _).trans (pieces_last _ hn bs)

theorem pieces_four {k l m n : Nat} (hk : k < 5) (hl : l < 64) (hm : m < 64) (hn : n < 64)
    (hlow : k = 0 → 16 ≤ l) (hhigh : k = 4 → l < 16) (bs : List UInt8) :
    pieces none (UInt8.ofNat (k + 240) :: UInt8.ofNat (l + 128) :: UInt8.ofNat (m + 128) ::
        UInt8.ofNat (n + 128) :: bs) =
      some (Char.ofNat (((k * 64 + l) * 64 + m) * 64 + n)) :: pieces none bs := by
  have hlow' : (if k = 0 then 0x90 else 0x80 : UInt8).toNat ≤ l + 128 := by
    split
    · next h => exact Nat.add_le_add_right (hlow h) 128
    · exact Nat.le_add_left 128 l
  have hhigh' : l + 128 ≤ (if k = 4 then 0x8f else 0xbf : UInt8).toNat := by
    split
    · next h => exact Nat.add_le_add_right (Nat.le_of_lt_succ (hhigh h)) 128
    · exact Nat.add_le_add_right (Nat.le_of_lt_succ hl) 128
  rw [pieces,advance,begin_four hk]
  exact (pieces_follow k 3 hl hlow' hhigh' _).trans
    ((pieces_middle _ hm _).trans (pieces_last _ hn bs))

/-- The bytes of a character are one piece, whatever follows. -/
theorem pieces_char (c : Char) (bs : List UInt8) :
    pieces none (String.utf8EncodeChar c ++ bs) = some c :: pieces none bs := by
  have hvalid : c.val.toNat < 0xd800 ∨ 0xdfff < c.val.toNat ∧ c.val.toNat < 0x110000 := c.valid
  have hchar : Char.ofNat c.val.toNat = c := c.ofNat_toNat
  unfold String.utf8EncodeChar
  dsimp only
  generalize c.val.toNat = v at hvalid hchar ⊢
  split
  · rw [List.singleton_append,pieces,advance,begin_of_lt (by omega),hchar]
    rfl
  · split
    · have hbits : v / 64 % 32 * 64 + v % 64 = v := by omega
      refine (pieces_two (by omega) (by omega) bs).trans ?_
      rw [hbits,hchar]
    · split
      · have hbits : (v / 4096 % 16 * 64 + v / 64 % 64) * 64 + v % 64 = v := by omega
        refine (pieces_three (by omega) (by omega) (by omega) (by omega) (by omega) bs).trans ?_
        rw [hbits,hchar]
      · have hbits : ((v / 262144 % 8 * 64 + v / 4096 % 64) * 64 + v / 64 % 64) * 64 + v % 64 =
            v := by omega
        refine (pieces_four (by omega) (by omega) (by omega) (by omega) (by omega) (by omega)
          bs).trans ?_
        rw [hbits,hchar]

theorem pieces_encode (cs : List Char) : pieces none (encode cs) = cs.map some := by
  induction cs with
  | nil => rfl
  | cons c cs ih => rw [encode,List.flatMap_cons,pieces_char,List.map_cons,← ih,encode]

theorem decode?_encode (cs : List Char) : decode? (encode cs) = some cs := by
  rw [decode?,pieces_encode]
  induction cs with
  | nil => rfl
  | cons c cs ih => rw [List.map_cons,List.mapM_cons,ih]; rfl

/-! Bytes that are read are those of the characters read. -/

theorem toNat_ofNat {v : Nat} (h : v.isValidChar) : (Char.ofNat v).val.toNat = v := by
  rw [Char.ofNat,dif_pos h]
  rfl

theorem encodeChar_one {b : Nat} (h : b < 128) :
    String.utf8EncodeChar (Char.ofNat b) = [UInt8.ofNat b] := by
  have hvalue := toNat_ofNat (v := b) (.inl (by omega))
  simp only [String.utf8EncodeChar,hvalue]
  rw [if_pos (by omega)]

theorem encodeChar_two {m n : Nat} (hm : 2 ≤ m ∧ m < 32) (hn : n < 64) :
    String.utf8EncodeChar (Char.ofNat (m * 64 + n)) =
      [UInt8.ofNat (m + 192),UInt8.ofNat (n + 128)] := by
  have hvalue := toNat_ofNat (v := m * 64 + n) (.inl (by omega))
  have hfirst : (m * 64 + n) / 64 % 32 = m := by omega
  have hlast : (m * 64 + n) % 64 = n := by omega
  simp only [String.utf8EncodeChar,hvalue,hfirst,hlast]
  rw [if_neg (by omega),if_pos (by omega)]

theorem encodeChar_three {l m n : Nat} (hl : l < 16) (hm : m < 64) (hn : n < 64)
    (hlow : l = 0 → 32 ≤ m) (hhigh : l = 13 → m < 32) :
    String.utf8EncodeChar (Char.ofNat ((l * 64 + m) * 64 + n)) =
      [UInt8.ofNat (l + 224),UInt8.ofNat (m + 128),UInt8.ofNat (n + 128)] := by
  have hvalid : ((l * 64 + m) * 64 + n).isValidChar := by
    by_cases hl13 : l < 14
    · exact .inl (by omega)
    · exact .inr ⟨by omega,by omega⟩
  have hvalue := toNat_ofNat hvalid
  have hfirst : ((l * 64 + m) * 64 + n) / 4096 % 16 = l := by omega
  have hmiddle : ((l * 64 + m) * 64 + n) / 64 % 64 = m := by omega
  have hlast : ((l * 64 + m) * 64 + n) % 64 = n := by omega
  simp only [String.utf8EncodeChar,hvalue,hfirst,hmiddle,hlast]
  rw [if_neg (by omega),if_neg (by omega),if_pos (by omega)]

theorem encodeChar_four {k l m n : Nat} (hk : k < 5) (hl : l < 64) (hm : m < 64) (hn : n < 64)
    (hlow : k = 0 → 16 ≤ l) (hhigh : k = 4 → l < 16) :
    String.utf8EncodeChar (Char.ofNat (((k * 64 + l) * 64 + m) * 64 + n)) =
      [UInt8.ofNat (k + 240),UInt8.ofNat (l + 128),UInt8.ofNat (m + 128),
        UInt8.ofNat (n + 128)] := by
  have hvalue := toNat_ofNat (v := ((k * 64 + l) * 64 + m) * 64 + n) (.inr ⟨by omega,by omega⟩)
  have hfirst : (((k * 64 + l) * 64 + m) * 64 + n) / 262144 % 8 = k := by omega
  have hsecond : (((k * 64 + l) * 64 + m) * 64 + n) / 4096 % 64 = l := by omega
  have hthird : (((k * 64 + l) * 64 + m) * 64 + n) / 64 % 64 = m := by omega
  have hlast : (((k * 64 + l) * 64 + m) * 64 + n) % 64 = n := by omega
  simp only [String.utf8EncodeChar,hvalue,hfirst,hsecond,hthird,hlast]
  rw [if_neg (by omega),if_neg (by omega),if_neg (by omega)]

/-- Where a character is under way and no piece is missing, a byte of six bits follows. -/
theorem exists_follow {code due : Nat} {low high : UInt8} {bs : List UInt8}
    (hlow : 128 ≤ low.toNat) (hhigh : high.toNat < 192)
    (h : none ∉ pieces (some ⟨code,due + 1,low,high⟩) bs) :
    ∃ n rest, bs = UInt8.ofNat (n + 128) :: rest ∧ n < 64 ∧ low.toNat ≤ n + 128 ∧
      n + 128 ≤ high.toNat ∧
      (0 < due → none ∉ pieces (some ⟨code * 64 + n,due,0x80,0xbf⟩) rest) := by
  cases bs with
  | nil => simp [pieces] at h
  | cons b rest =>
    by_cases hb : low ≤ b ∧ b ≤ high
    · rw [UInt8.le_iff_toNat_le,UInt8.le_iff_toNat_le] at hb
      obtain ⟨n,hn⟩ : ∃ n, b.toNat = n + 128 := ⟨b.toNat - 128,by omega⟩
      obtain rfl : b = UInt8.ofNat (n + 128) := by rw [← hn,UInt8.ofNat_toNat]
      rw [hn] at hb
      refine ⟨n,rest,rfl,by omega,hb.1,hb.2,fun hdue => ?_⟩
      rw [pieces_follow code (due + 1) (by omega) hb.1 hb.2,if_neg (by omega)] at h
      exact h
    · simp [pieces,advance,hb] at h

/-- A byte begins a character of one, two, three or four bytes, or nothing. -/
theorem begin_cases (b : UInt8) :
    b.toNat < 128 ∨ (∃ n, b = UInt8.ofNat (n + 192) ∧ 2 ≤ n ∧ n < 32) ∨
      (∃ n, b = UInt8.ofNat (n + 224) ∧ n < 16) ∨ (∃ n, b = UInt8.ofNat (n + 240) ∧ n < 5) ∨
      begin b = ([none],none) := by
  have hb := b.toNat_lt
  have hvalue : ∀ n, n ≤ b.toNat → b = UInt8.ofNat (b.toNat - n + n) := by
    intro n hn
    rw [Nat.sub_add_cancel hn,UInt8.ofNat_toNat]
  by_cases hone : b.toNat < 128
  · exact .inl hone
  by_cases htwo : 194 ≤ b.toNat ∧ b.toNat < 224
  · exact .inr (.inl ⟨_,hvalue 192 (by omega),by omega,by omega⟩)
  by_cases hthree : 224 ≤ b.toNat ∧ b.toNat < 240
  · exact .inr (.inr (.inl ⟨_,hvalue 224 (by omega),by omega⟩))
  by_cases hfour : 240 ≤ b.toNat ∧ b.toNat < 245
  · exact .inr (.inr (.inr (.inl ⟨_,hvalue 240 (by omega),by omega⟩)))
  refine .inr (.inr (.inr (.inr ?_)))
  have hout : b.toNat < 194 ∨ 244 < b.toNat := by omega
  have hne : ∀ c : UInt8, 194 ≤ c.toNat → c.toNat ≤ 244 → b ≠ c := by
    rintro c hlow hhigh rfl
    omega
  have hgap : ∀ low high : UInt8, 194 ≤ low.toNat → high.toNat ≤ 244 → ¬ (low ≤ b ∧ b ≤ high) := by
    intro low high hlow hhigh hbounds
    rw [UInt8.le_iff_toNat_le,UInt8.le_iff_toNat_le] at hbounds
    omega
  have hsmall : ¬ b < 0x80 := by
    rw [UInt8.lt_iff_toNat_lt]
    exact hone
  rw [begin,if_neg hsmall,if_neg (hgap 0xc2 0xdf (by decide) (by decide)),
    if_neg (hne 0xe0 (by decide) (by decide)),if_neg (hne 0xed (by decide) (by decide)),
    if_neg (hgap 0xe1 0xef (by decide) (by decide)),if_neg (hne 0xf0 (by decide) (by decide)),
    if_neg (hne 0xf4 (by decide) (by decide)),if_neg (hgap 0xf1 0xf3 (by decide) (by decide))]

/-- Where no piece is missing, the bytes of a character stand in front. -/
theorem exists_char_of_pieces {b : UInt8} {bs : List UInt8} (h : none ∉ pieces none (b :: bs)) :
    ∃ c rest, b :: bs = String.utf8EncodeChar c ++ rest := by
  obtain hone | ⟨m,rfl,hm⟩ | ⟨l,rfl,hl⟩ | ⟨k,rfl,hk⟩ | hbad := begin_cases b
  · exact ⟨Char.ofNat b.toNat,bs,by rw [encodeChar_one hone,UInt8.ofNat_toNat]; rfl⟩
  · rw [pieces,advance,begin_two hm.1 hm.2] at h
    obtain ⟨n,rest,rfl,hn,-⟩ := exists_follow (by decide) (by decide) h
    exact ⟨Char.ofNat (m * 64 + n),rest,by rw [encodeChar_two hm hn]; rfl⟩
  · rw [pieces,advance,begin_three hl] at h
    obtain ⟨m,bs,rfl,hm,hlow,hhigh,h⟩ :=
      exists_follow (by split <;> decide) (by split <;> decide) h
    obtain ⟨n,rest,rfl,hn,-⟩ := exists_follow (by decide) (by decide) (h Nat.one_pos)
    have hlow' : l = 0 → 32 ≤ m := by
      intro hl
      rw [if_pos hl] at hlow
      exact Nat.le_of_add_le_add_right (show 32 + 128 ≤ m + 128 from hlow)
    have hhigh' : l = 13 → m < 32 := by
      intro hl
      rw [if_pos hl] at hhigh
      exact Nat.lt_succ_of_le (Nat.le_of_add_le_add_right hhigh)
    refine ⟨Char.ofNat ((l * 64 + m) * 64 + n),rest,?_⟩
    rw [encodeChar_three hl hm hn hlow' hhigh']
    rfl
  · rw [pieces,advance,begin_four hk] at h
    obtain ⟨l,bs,rfl,hl,hlow,hhigh,h⟩ :=
      exists_follow (by split <;> decide) (by split <;> decide) h
    obtain ⟨m,bs,rfl,hm,-,-,h⟩ := exists_follow (by decide) (by decide) (h Nat.two_pos)
    obtain ⟨n,rest,rfl,hn,-⟩ := exists_follow (by decide) (by decide) (h Nat.one_pos)
    have hlow' : k = 0 → 16 ≤ l := by
      intro hk
      rw [if_pos hk] at hlow
      exact Nat.le_of_add_le_add_right (show 16 + 128 ≤ l + 128 from hlow)
    have hhigh' : k = 4 → l < 16 := by
      intro hk
      rw [if_pos hk] at hhigh
      exact Nat.lt_succ_of_le (Nat.le_of_add_le_add_right hhigh)
    refine ⟨Char.ofNat (((k * 64 + l) * 64 + m) * 64 + n),rest,?_⟩
    rw [encodeChar_four hk hl hm hn hlow' hhigh']
    rfl
  · simp [pieces,advance,hbad] at h

theorem exists_encode_of_pieces (bs : List UInt8) (h : none ∉ pieces none bs) :
    ∃ cs, encode cs = bs := by
  match bs with
  | [] => exact ⟨[],rfl⟩
  | b :: bs =>
    obtain ⟨c,rest,hrest⟩ := exists_char_of_pieces h
    rw [hrest,pieces_char] at h
    have hshort : rest.length < bs.length + 1 := by
      have hlength := congrArg List.length hrest
      have hpos := c.utf8Size_pos
      rw [List.length_append,String.length_utf8EncodeChar,List.length_cons] at hlength
      omega
    obtain ⟨cs,rfl⟩ := exists_encode_of_pieces rest fun hrest => h (.tail _ hrest)
    exact ⟨c :: cs,hrest.symm⟩
  termination_by bs.length

theorem mapM_id_of_mem {α : Type} {xs : List (Option α)} (h : none ∈ xs) : xs.mapM id = none := by
  induction h with
  | head xs => rfl
  | tail x _ ih => cases x <;> simp [List.mapM_cons,ih]

/-- Bytes that cannot be read are those of no text. -/
theorem decode?_eq_none_iff (bs : List UInt8) : decode? bs = none ↔ ∀ cs, encode cs ≠ bs := by
  constructor
  · rintro h cs rfl
    rw [decode?_encode] at h
    cases h
  · intro h
    by_contra hread
    obtain ⟨cs,hcs⟩ := exists_encode_of_pieces bs fun hgap => hread (mapM_id_of_mem hgap)
    exact h cs hcs

end Utf8

end FlagEngine
