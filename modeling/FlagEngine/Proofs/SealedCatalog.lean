import FlagEngine.Proofs.Loading
import FlagEngine.Proofs.LongIntegers
import FlagEngine.Proofs.Sealing

/-! Catalogs with sealed features. Once the features are unsealed and read they are treated as if
they had come open, with the same limit on the depth of conditions, so the outcome is the same in
all its parts. -/
namespace FlagEngine

/-- A key as it is handed over, in base64. -/
def Cipher.keyText (key : List UInt8) : String := String.ofList (Base64.encode key)

theorem Cipher.isEmpty_keyText {key : List UInt8} (h : Aes.isKey key = true) :
    (keyText key).isEmpty = false := by
  obtain ⟨size,hkey,hpos,-⟩ := Aes.length_of_isKey h
  have hne : Base64.encode key ≠ [] := by
    rcases key with _ | ⟨a,_ | ⟨b,_ | ⟨c,rest⟩⟩⟩ <;> simp [Base64.encode]
    simp at hkey
    omega
  simpa [keyText,String.isEmpty_iff] using hne

namespace Catalog

/-- A payload with nothing but sealed features. -/
def sealedPayload (s : String) : Value := .obj [("encryptedFeatures",.str s)]

/-- A payload with nothing but open features. -/
def openPayload (features : Value) : Value := .obj [("features",features)]

theorem rawCatalog_sealed (s : String) :
    Intake.rawCatalog (wrapped [(.str "encryptedFeatures",.str s)]) = .good ⟨[],some s,none⟩ := by
  have hstring : Intake.string (.str s) = .good s := by
    simp [Intake.string,Intake.text?,Checked.ofOption]
  have hfield : Intake.field [(.str "encryptedFeatures",.str s)]
      ["encryptedFeatures","encrypted_features"] none (Intake.nullable Intake.string) =
        .good (some s) := by
    show ((Intake.string (.str s)).map some).inside "encryptedFeatures" = _
    rw [hstring]
    rfl
  have hwrapped : wrapped [(.str "encryptedFeatures",.str s)] =
      [(.str "encryptedFeatures",.str s)] := rfl
  rw [hwrapped,Intake.rawCatalog,hfield]
  rfl

variable (json : Json.Reader) (key : Option String) (limit : Int)

theorem readBy_sealedPayload (s : String) :
    readBy json (sealedPayload s) key limit = readSealed json s key limit :=
  readBy_of_good (rawCatalog_sealed s) json key limit

theorem readBy_openPayload (features : Value) :
    readBy json (openPayload features) key limit = readFeatures features limit := by
  have hwrapped : wrapped [(.str "features",features)] = [(.str "features",features)] := rfl
  unfold readFeatures
  rcases hraw : Intake.rawCatalog [(.str "features",features)] with raw | wrong
  · refine (readBy_of_good (hwrapped ▸ hraw) json key limit).trans ?_
    rw [sealedFeatures_of_absent hraw rfl]
  · exact readBy_of_bad (hwrapped ▸ hraw) json key limit

end Catalog

end FlagEngine
