import FlagEngine.Base64
import FlagEngine.Cipher.Aes
import FlagEngine.Cipher.Chain
import FlagEngine.Text.Utf8

/-! Sealed texts: the first mask and the encrypted blocks, both in base64, with a dot between them.
The key is in base64 too. -/
namespace FlagEngine.Cipher

/-- The text that was sealed, if all of it fits together. -/
def unseal? (sealed key : String) : Option String :=
  match sealed.toList.span (· != '.') with
  | (_, []) => none
  | (mask, _ :: blocks) => do
    let key ← Base64.decode? key.toList
    let mask ← Base64.decode? mask
    let blocks ← Base64.decode? blocks
    if Aes.isKey key && mask.length == Chain.size then
      let bytes ← Chain.decrypt? (Aes.decrypt key) mask blocks
      (Utf8.decode? bytes).map String.ofList
    else none

/-- Seals a text under a key and a first mask. -/
def seal? (text : String) (key mask : List UInt8) : Option String :=
  (Chain.encrypt (Aes.encrypt key) mask (Utf8.encode text.toList)).map fun bytes =>
    String.ofList (Base64.encode mask ++ '.' :: Base64.encode bytes)

end FlagEngine.Cipher
