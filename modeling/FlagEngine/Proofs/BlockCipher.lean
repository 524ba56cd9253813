import FlagEngine.Cipher.Aes
import FlagEngine.Proofs.ByteField
import Mathlib.Data.List.Induction
import Mathlib.Tactic.IntervalCases

/-! The block cipher undoes itself. Each step of a round is undone by a step of its own: the
substitution byte by byte, the turns of the rows by turns back, the mixing of the columns by another
mixing, and a round key by itself. The rounds are undone last first. -/
namespace FlagEngine.Cipher.Aes

theorem xor_xor_cancel {k b : List UInt8} (h : b.length ≤ k.length) : xor k (xor k b) = b := by
  induction b generalizing k with
  | nil => simp [xor]
  | cons x b ih =>
    cases k with
    | nil => simp at h
    | cons y k =>
      have hrest := ih (Nat.le_of_succ_le_succ h)
      simp only [xor,List.zipWith_cons_cons] at hrest ⊢
      rw [hrest,← UInt8.xor_assoc,UInt8.xor_self,UInt8.zero_xor]

theorem length_xor {a b : List UInt8} (h : a.length = b.length) : (xor a b).length = b.length := by
  simp [xor,h]

/-! Blocks cell by cell. -/

@[simp] theorem length_ofCells (f : Nat → Nat → UInt8) : (ofCells f).length = blockSize := by
  simp [ofCells,blockSize]

theorem ofCells_congr {f g : Nat → Nat → UInt8} (h : ∀ r < 4, ∀ c < 4, f r c = g r c) :
    ofCells f = ofCells g := by
  unfold ofCells
  refine List.map_congr_left fun i hi => ?_
  rw [List.mem_range] at hi
  exact h _ (by omega) _ (by omega)

theorem cell_ofCells (f : Nat → Nat → UInt8) {r : Nat} (hr : r < 4) (c : Nat) :
    cell (ofCells f) r c = f r (c % 4) := by
  have hi : r + 4 * (c % 4) < 16 := by omega
  have hrow : (r + 4 * (c % 4)) % 4 = r := by omega
  have hcolumn : (r + 4 * (c % 4)) / 4 = c % 4 := by omega
  unfold cell ofCells
  rw [List.getD_eq_getElem?_getD,List.getElem?_map,List.getElem?_range hi]
  simp only [Option.map_some,Option.getD_some,hrow,hcolumn]

theorem ofCells_cell {b : Block} (h : b.length = blockSize) : ofCells (cell b) = b := by
  refine List.ext_getElem (by rw [length_ofCells,h]) fun i hi hi' => ?_
  have hsize : i < 16 := by simpa [blockSize] using hi
  have hplace : i % 4 + 4 * (i / 4 % 4) = i := by omega
  simp only [ofCells,List.getElem_map,List.getElem_range,cell,hplace]
  rw [List.getD_eq_getElem?_getD,List.getElem?_eq_getElem hi',Option.getD_some]

theorem unshiftRows_shiftRows {b : Block} (h : b.length = blockSize) :
    unshiftRows (shiftRows b) = b := by
  rw [unshiftRows,shiftRows]
  refine Eq.trans (ofCells_congr fun r hr c hc => ?_) (ofCells_cell h)
  have hback : ((c + 4 - r) % 4 + r) % 4 = c % 4 := by omega
  rw [cell_ofCells _ hr]
  unfold cell
  rw [hback]

@[simp] theorem length_shiftRows (b : Block) : (shiftRows b).length = blockSize := by
  rw [shiftRows,length_ofCells]

@[simp] theorem length_mixColumns (b : Block) : (mixColumns b).length = blockSize := by
  rw [mixColumns,mixWith,length_ofCells]

theorem unmixColumns_mixColumns {b : Block} (h : b.length = blockSize) :
    unmixColumns (mixColumns b) = b := by
  rw [unmixColumns,mixWith]
  refine Eq.trans (ofCells_congr fun r hr c hc => ?_) (ofCells_cell h)
  have hcell : ∀ k < 4, cell (mixColumns b) k c = (List.range 4).foldl
      (fun s j => s ^^^ mul ([2,3,1,1].getD ((j + 4 - k) % 4) 0) (cell b j c)) 0 := by
    intro k hk
    rw [mixColumns,mixWith,cell_ofCells _ hk,Nat.mod_eq_of_lt hc]
  -- The sum over the rows of sums is, cell by cell, a sum of cells mixed twice.
  have hsum : (List.range 4).foldl (fun s k => s ^^^ mul ([14,11,13,9].getD ((k + 4 - r) % 4) 0)
      (cell (mixColumns b) k c)) 0 = (List.range 4).foldl
        (fun s j => s ^^^ mixedTwice [2,3,1,1] [14,11,13,9] r j (cell b j c)) 0 := by
    rw [foldl_range_four,hcell 0 (by decide),hcell 1 (by decide),hcell 2 (by decide),
      hcell 3 (by decide)]
    simp only [mixedTwice,foldl_range_four,mul_xor]
    ac_rfl
  rw [hsum,foldl_range_four,mixedTwice_inverse hr (by decide),mixedTwice_inverse hr (by decide),
    mixedTwice_inverse hr (by decide),mixedTwice_inverse hr (by decide)]
  interval_cases r <;> simp

/-! The keys of the rounds. -/

theorem length_chunks (size n : Nat) (bs : List UInt8) : (chunks size n bs).length = n := by
  induction n generalizing bs with
  | zero => rfl
  | succ n ih => rw [chunks,List.length_cons,ih]

theorem length_of_mem_chunks {size n : Nat} {bs : List UInt8} (h : bs.length = size * n) :
    ∀ c ∈ chunks size n bs, c.length = size := by
  induction n generalizing bs with
  | zero => simp [chunks]
  | succ n ih =>
    rw [Nat.mul_succ] at h
    have hrest : (bs.drop size).length = size * n := by
      rw [List.length_drop]
      omega
    rw [chunks,List.forall_mem_cons]
    exact ⟨by rw [List.length_take]; omega,ih hrest⟩

@[simp] theorem length_turn (w : List UInt8) : (turn w).length = w.length := by
  cases w <;> simp [turn]

theorem length_mixed (size i : Nat) {w : List UInt8} (h : w.length = 4) :
    (mixed size i w).length = 4 := by
  unfold mixed
  split
  · exact length_xor (by simp [h])
  · split
    · rw [List.length_map,h]
    · exact h

/-- Words of four bytes make words of four bytes, one for each that is asked for. -/
theorem length_expand {size n : Nat} {ws : List (List UInt8)} (hsize : 0 < size)
    (hws : size ≤ ws.length) (hword : ∀ w ∈ ws, w.length = 4) :
    (expand size n ws).length = ws.length + n ∧ ∀ w ∈ expand size n ws, w.length = 4 := by
  induction n generalizing ws with
  | zero => exact ⟨rfl,hword⟩
  | succ n ih =>
    have hold : ∀ i < ws.length, (ws.getD i []).length = 4 := by
      intro i hi
      rw [List.getD_eq_getElem?_getD,List.getElem?_eq_getElem hi]
      exact hword _ (List.getElem_mem hi)
    have hhead : (ws.headD []).length = 4 := by
      have hfirst := hold 0 (by omega)
      cases ws <;> exact hfirst
    have hnew := length_xor ((length_mixed size ws.length hhead).trans (hold (size - 1) (by omega)).symm)
    rw [hold (size - 1) (by omega)] at hnew
    have hall : ∀ w ∈ xor (mixed size ws.length (ws.headD [])) (ws.getD (size - 1) []) :: ws,
        w.length = 4 := List.forall_mem_cons.mpr ⟨hnew,hword⟩
    obtain ⟨hlength,hwords⟩ := ih (by rw [List.length_cons]; omega) hall
    exact ⟨by rw [expand,hlength,List.length_cons]; omega,hwords⟩

theorem length_flatten {size : Nat} {ws : List (List UInt8)} (h : ∀ w ∈ ws, w.length = size) :
    ws.flatten.length = size * ws.length := by
  induction ws with
  | nil => simp
  | cons w ws ih =>
    rw [List.forall_mem_cons] at h
    rw [List.flatten_cons,List.length_append,h.1,ih h.2,List.length_cons,Nat.mul_succ]
    omega

theorem length_of_isKey {key : List UInt8} (h : isKey key = true) :
    ∃ size, key.length = 4 * size ∧ 0 < size ∧ size ≤ 8 := by
  simp only [isKey,List.contains_cons,List.contains_nil,Bool.or_false,Bool.or_eq_true,
    beq_iff_eq] at h
  obtain h | h | h := h
  · exact ⟨4,h,by decide,by decide⟩
  · exact ⟨6,h,by decide,by decide⟩
  · exact ⟨8,h,by decide,by decide⟩

theorem length_roundKeys (key : List UInt8) : (roundKeys key).length = rounds key + 1 :=
  length_chunks _ _ _

theorem length_of_mem_roundKeys {key : List UInt8} (h : isKey key = true) :
    ∀ k ∈ roundKeys key, k.length = blockSize := by
  obtain ⟨size,hkey,hpos,hle⟩ := length_of_isKey h
  have hsize : key.length / 4 = size := by omega
  have hwords : ∀ w ∈ (chunks 4 size key).reverse, w.length = 4 := fun w hw =>
    length_of_mem_chunks hkey w (List.mem_reverse.mp hw)
  have hstart : (chunks 4 size key).reverse.length = size := by
    rw [List.length_reverse,length_chunks]
  obtain ⟨hlength,hall⟩ := length_expand (n := 4 * (rounds key + 1) - size) hpos
    (Nat.le_of_eq hstart.symm) hwords
  unfold roundKeys
  dsimp only
  rw [hsize]
  refine length_of_mem_chunks ?_
  rw [length_flatten fun w hw => hall w (List.mem_reverse.mp hw),List.length_reverse,hlength,hstart]
  unfold rounds
  omega

/-! The rounds. -/

/-- The substitution and the turns that every round begins with. -/
def scramble (b : Block) : Block := shiftRows (b.map substitute)

def unscramble (b : Block) : Block := (unshiftRows b).map unsubstitute

@[simp] theorem length_scramble (b : Block) : (scramble b).length = blockSize := length_shiftRows _

theorem unscramble_scramble {b : Block} (h : b.length = blockSize) :
    unscramble (scramble b) = b := by
  have hundone : unsubstitute ∘ substitute = id := funext unsubstitute_substitute
  rw [unscramble,scramble,unshiftRows_shiftRows (by rw [List.length_map,h]),List.map_map,hundone,
    List.map_id]

/-- What the rounds but the last make of a block. -/
def runRounds (ks : List Block) (b : Block) : Block :=
  ks.foldl (fun b k => xor k (mixColumns (scramble b))) b

theorem encryptRounds_append (ks : List Block) (k b : Block) :
    encryptRounds (ks ++ [k]) b = xor k (scramble (runRounds ks b)) := by
  induction ks generalizing b with
  | nil => rfl
  | cons k' ks ih =>
    have hround : encryptRounds (k' :: (ks ++ [k])) b =
        encryptRounds (ks ++ [k]) (xor k' (mixColumns (scramble b))) := by
      cases ks <;> rfl
    rw [List.cons_append,hround,ih]
    rfl

/-- The rounds are undone from the last to the first, by induction on the end of the keys. -/
theorem decryptRounds_runRounds {ks : List Block} (hks : ∀ k ∈ ks, k.length = blockSize)
    (k : Block) {b : Block} (hb : b.length = blockSize) :
    decryptRounds (ks.reverse ++ [k]) (scramble (runRounds ks b)) = xor k b := by
  induction ks using List.reverseRecOn with
  | nil =>
    show xor k (unscramble (scramble b)) = _
    rw [unscramble_scramble hb]
  | append_singleton ks k' ih =>
    rw [List.forall_mem_append,List.forall_mem_singleton] at hks
    have hlast : runRounds (ks ++ [k']) b = xor k' (mixColumns (scramble (runRounds ks b))) := by
      simp [runRounds]
    have hround : ∀ c, decryptRounds (k' :: (ks.reverse ++ [k])) c =
        decryptRounds (ks.reverse ++ [k]) (unmixColumns (xor k' (unscramble c))) := by
      intro c
      cases ks.reverse <;> rfl
    rw [List.reverse_append,List.reverse_singleton,List.singleton_append,List.cons_append,hround,
      hlast,unscramble_scramble (by rw [length_xor (by rw [hks.2,length_mixColumns]),
        length_mixColumns]),xor_xor_cancel (by rw [hks.2,length_mixColumns]),
      unmixColumns_mixColumns (length_scramble _)]
    exact ih hks.1

/-- A first key, a last key, and the keys of the rounds between them. -/
theorem exists_roundKeys (key : List UInt8) :
    ∃ first ks last, roundKeys key = first :: (ks ++ [last]) := by
  have hlength := length_roundKeys key
  rcases hkeys : roundKeys key with _ | ⟨first,rest⟩ <;> rw [hkeys] at hlength
  · simp at hlength
  · rcases List.eq_nil_or_concat rest with rfl | ⟨ks,last,rfl⟩
    · simp [rounds] at hlength
    · exact ⟨first,ks,last,by rw [List.concat_eq_append]⟩

section

variable {key b : List UInt8}

theorem encrypt_eq {first last : Block} {ks : List Block}
    (h : roundKeys key = first :: (ks ++ [last])) :
    encrypt key b = xor last (scramble (runRounds ks (xor first b))) := by
  unfold encrypt
  rw [h]
  exact encryptRounds_append ks last _

theorem length_encrypt (h : isKey key = true) : (encrypt key b).length = blockSize := by
  obtain ⟨first,ks,last,hkeys⟩ := exists_roundKeys key
  have hlast : last.length = blockSize := length_of_mem_roundKeys h last (by simp [hkeys])
  rw [encrypt_eq hkeys,length_xor (by rw [hlast,length_scramble]),length_scramble]

/-- What is encrypted under a key is decrypted under it. -/
theorem decrypt_encrypt (h : isKey key = true) (hb : b.length = blockSize) :
    decrypt key (encrypt key b) = b := by
  obtain ⟨first,ks,last,hkeys⟩ := exists_roundKeys key
  have hall := length_of_mem_roundKeys h
  simp only [hkeys,List.forall_mem_cons,List.forall_mem_append] at hall
  obtain ⟨hfirst,hks,hlast,-⟩ := hall
  have hreverse : (roundKeys key).reverse = last :: (ks.reverse ++ [first]) := by simp [hkeys]
  unfold decrypt
  rw [hreverse,encrypt_eq hkeys]
  dsimp only
  rw [xor_xor_cancel (by rw [hlast,length_scramble]),
    decryptRounds_runRounds hks first (by rw [length_xor (by rw [hfirst,hb]),hb]),
    xor_xor_cancel (by rw [hb,hfirst])]

end

end FlagEngine.Cipher.Aes
