import FlagEngine.Cipher.Sealed
import FlagEngine.Proofs.BlockCipher
import FlagEngine.Proofs.Encodings

/-! Sealed texts are unsealed to what they were. Chaining is followed for any block function that
another undoes; the filling is always there to be taken off, a whole block of it if need be. The
parts of a sealed text are told apart by the one dot in it. -/
namespace FlagEngine.Cipher

namespace Chain

/-- The first function keeps blocks, and the second undoes it on them. -/
structure Undone (encrypt decrypt : List UInt8 → List UInt8) : Prop where
  length_encrypt (b : List UInt8) (h : b.length = size) : (encrypt b).length = size
  decrypt_encrypt (b : List UInt8) (h : b.length = size) : decrypt (encrypt b) = b

theorem xor_xor_cancel {b mask : List UInt8} (h : b.length ≤ mask.length) :
    xor (xor b mask) mask = b := by
  have hswap : ∀ bs, xor bs mask = Aes.xor mask bs := fun _ => List.zipWith_comm_of_comm UInt8.xor_comm
  rw [hswap,hswap,Aes.xor_xor_cancel h]

theorem length_xor {b mask : List UInt8} (hb : b.length = size) (hmask : mask.length = size) :
    (xor b mask).length = size := by
  simp [xor,hb,hmask]

/-! Cutting into blocks. -/

theorem blocks?_nil (n : Nat) : blocks? n [] = some [] := by
  cases n <;> rfl

theorem blocks?_flatten {cs : List (List UInt8)} (h : ∀ c ∈ cs, c.length = size) {n : Nat}
    (hn : cs.length ≤ n) : blocks? n cs.flatten = some cs := by
  induction cs generalizing n with
  | nil => exact blocks?_nil n
  | cons c cs ih =>
    rw [List.forall_mem_cons] at h
    obtain ⟨n,rfl⟩ : ∃ m, n = m + 1 := ⟨n - 1,by rw [List.length_cons] at hn; omega⟩
    have hrest := ih h.2 (Nat.le_of_succ_le_succ hn)
    have hne : c ++ cs.flatten ≠ [] := by
      rw [ne_eq,List.append_eq_nil_iff]
      rintro ⟨rfl,-⟩
      simp [size] at h
    have hshort : ¬ (c ++ cs.flatten).length < size := by
      rw [List.length_append,h.1]
      omega
    rw [List.flatten_cons,blocks?]
    · rw [if_neg hshort,← h.1,List.drop_left,List.take_left,hrest]
      rfl
    · exact hne

theorem flatten_chunks {n : Nat} {bs : List UInt8} (h : bs.length = size * n) :
    (Aes.chunks size n bs).flatten = bs := by
  induction n generalizing bs with
  | zero => exact (List.eq_nil_of_length_eq_zero h).symm
  | succ n ih =>
    have hrest : (bs.drop size).length = size * n := by
      rw [List.length_drop,h,Nat.mul_succ]
      omega
    rw [Aes.chunks,List.flatten_cons,ih hrest,List.take_append_drop]

/-! Chaining. -/

section

variable {encrypt decrypt : List UInt8 → List UInt8} (h : Undone encrypt decrypt)

include h

theorem encryptBlocks_blocks {bs : List (List UInt8)} (hbs : ∀ b ∈ bs, b.length = size)
    {mask : List UInt8} (hmask : mask.length = size) :
    (∀ c ∈ encryptBlocks encrypt mask bs, c.length = size) ∧
      (encryptBlocks encrypt mask bs).length = bs.length := by
  induction bs generalizing mask with
  | nil => simp [encryptBlocks]
  | cons b bs ih =>
    rw [List.forall_mem_cons] at hbs
    have hc := h.length_encrypt _ (length_xor hbs.1 hmask)
    obtain ⟨hblocks,hlength⟩ := ih hbs.2 hc
    exact ⟨List.forall_mem_cons.mpr ⟨hc,hblocks⟩,congrArg (· + 1) hlength⟩

/-- Every block is unmasked with the encrypted block that it was masked with. -/
theorem decryptBlocks_encryptBlocks {bs : List (List UInt8)} (hbs : ∀ b ∈ bs, b.length = size)
    {mask : List UInt8} (hmask : mask.length = size) :
    decryptBlocks decrypt mask (encryptBlocks encrypt mask bs) = bs := by
  induction bs generalizing mask with
  | nil => rfl
  | cons b bs ih =>
    rw [List.forall_mem_cons] at hbs
    have hmasked := length_xor hbs.1 hmask
    simp only [encryptBlocks,decryptBlocks]
    rw [h.decrypt_encrypt _ hmasked,xor_xor_cancel (by rw [hbs.1,hmask]),
      ih hbs.2 (h.length_encrypt _ hmasked)]

end

/-! The filling. -/

theorem length_pad (bs : List UInt8) : (pad bs).length = size * (bs.length / size + 1) := by
  have hsize : size = 16 := rfl
  simp only [pad,List.length_append,List.length_replicate,hsize]
  omega

theorem unpad?_pad (bs : List UInt8) : unpad? (pad bs) = some bs := by
  obtain ⟨n,hn,hlow,hhigh⟩ : ∃ n, size - bs.length % size = n ∧ 1 ≤ n ∧ n ≤ size :=
    ⟨_,rfl,Nat.sub_pos_of_lt (Nat.mod_lt _ (by decide)),Nat.sub_le _ _⟩
  have hvalue : (UInt8.ofNat n).toNat = n := by
    have hsize : size = 16 := rfl
    rw [UInt8.toNat_ofNat']
    omega
  have hlast : (pad bs).getLast? = some (UInt8.ofNat n) := by
    simp only [pad,hn]
    rw [List.getLast?_append,List.getLast?_replicate,if_neg (by omega)]
    rfl
  have hkept : (pad bs).length - n = bs.length := by simp [pad,hn]
  unfold unpad?
  rw [hlast]
  simp only [hvalue,hkept]
  have hdrop : (pad bs).drop bs.length = List.replicate n (UInt8.ofNat n) := by
    simp only [pad,hn]
    exact List.drop_left
  have htake : (pad bs).take bs.length = bs := by
    simp only [pad]
    exact List.take_left
  rw [hdrop,htake,if_pos ⟨hlow,hhigh,by simp [pad,hn],by simp⟩]

theorem decrypt?_encrypt {encrypt decrypt : List UInt8 → List UInt8} (h : Undone encrypt decrypt)
    {mask : List UInt8} (hmask : mask.length = size) (bs : List UInt8) :
    ∃ cs, Chain.encrypt encrypt mask bs = some cs ∧ decrypt? decrypt mask cs = some bs := by
  have hpad := length_pad bs
  have hblocks := Aes.length_of_mem_chunks hpad
  have hcount := Aes.length_chunks size (bs.length / size + 1) (pad bs)
  have hcut : blocks? (bs.length + size) (pad bs) =
      some (Aes.chunks size (bs.length / size + 1) (pad bs)) := by
    have hfuel : bs.length / size + 1 ≤ bs.length + size := by
      simp only [size]
      omega
    have hflatten := blocks?_flatten (n := bs.length + size) hblocks (by rwa [hcount])
    rwa [flatten_chunks hpad] at hflatten
  obtain ⟨hencrypted,hlength⟩ := encryptBlocks_blocks h hblocks hmask
  have hsame := decryptBlocks_encryptBlocks h hblocks hmask
  refine ⟨_,by rw [Chain.encrypt,hcut]; rfl,?_⟩
  have hfuel : ∀ {cs : List (List UInt8)}, (∀ c ∈ cs, c.length = size) →
      cs.length ≤ cs.flatten.length := by
    intro cs hcs
    rw [Aes.length_flatten hcs]
    exact Nat.le_mul_of_pos_left _ (by decide)
  rw [decrypt?,blocks?_flatten hencrypted (hfuel hencrypted),Option.bind_some,hsame,
    flatten_chunks hpad,unpad?_pad]

end Chain

theorem Aes.undone {key : List UInt8} (h : isKey key = true) :
    Chain.Undone (encrypt key) (decrypt key) where
  length_encrypt _ _ := length_encrypt h
  decrypt_encrypt _ hb := decrypt_encrypt h hb

/-- A text that is sealed under a key and a first mask is unsealed under that key. -/
theorem unseal?_seal? {key mask : List UInt8} (hkey : Aes.isKey key = true)
    (hmask : mask.length = Chain.size) (text : String) :
    ∃ s, seal? text key mask = some s ∧
      unseal? s (String.ofList (Base64.encode key)) = some text := by
  obtain ⟨bytes,hencrypt,hdecrypt⟩ :=
    Chain.decrypt?_encrypt (Aes.undone hkey) hmask (Utf8.encode text.toList)
  refine ⟨_,by rw [seal?,hencrypt]; rfl,?_⟩
  have hspan : (Base64.encode mask ++ '.' :: Base64.encode bytes).span (· != '.') =
      (Base64.encode mask,'.' :: Base64.encode bytes) :=
    span_append (fun c hc => by simpa using Base64.ne_dot_of_mem_encode c hc) (by simp)
  rw [unseal?,String.toList_ofList,hspan]
  simp [Base64.decode?_encode,hkey,hmask,hdecrypt,Utf8.decode?_encode]

end FlagEngine.Cipher
