import PdGuard.Domain.Traits

namespace PdGuard

abbrev Bytes := List UInt8

/-- HKDF-SHA256 expanded to 32 bytes, AES-256-GCM, HMAC-SHA256 and SHA-256.  Texts stand
for their UTF-8 bytes. -/
class Crypto where
  hkdf : (ikm : Bytes) → (salt info : String) → Bytes
  aesEncrypt : (key nonce : Bytes) → (aad : String) → (msg : Bytes) → Option Bytes
  aesDecrypt : (key nonce : Bytes) → (aad : String) → (ciphertext : Bytes) → Option Bytes
  hmacSha256 : (secret : Bytes) → (data : Str) → Bytes
  sha256 : Str → Bytes

namespace Crypto

variable [Crypto]

def sessionKey (master : Bytes) (sessionId systemId : String) : Bytes :=
  hkdf master sessionId systemId

def encryptMapping (master : Bytes) (sessionId systemId : String) (plaintext nonce : Bytes) :
    Except VaultError EncryptedMapping :=
  match aesEncrypt (sessionKey master sessionId systemId) nonce systemId plaintext with
  | some ct => .ok ⟨nonce, ct⟩
  | none => .error (.crypto "aes encrypt: aead::Error")

def decryptMapping (master : Bytes) (sessionId systemId : String) (mapping : EncryptedMapping) :
    Except VaultError Bytes :=
  match aesDecrypt (sessionKey master sessionId systemId) mapping.nonce systemId
      mapping.ciphertext with
  | some plain => .ok plain
  | none => .error (.crypto "aes decrypt failed (bad key or tampered)")

omit [Crypto] in
def hex (bytes : Bytes) : Str :=
  bytes.flatMap fun b => [Nat.digitChar (b.toNat / 16), Nat.digitChar (b.toNat % 16)]

def hmacToken (secret : Bytes) (data : Str) : Str := hex ((hmacSha256 secret data).take 4)

def sha256Hex (data : Str) : Str := hex (sha256 data)

def RoundTrips : Prop :=
  ∀ key nonce aad msg ct, aesEncrypt key nonce aad msg = some ct →
    aesDecrypt key nonce aad ct = some msg

/-- What is encrypted for one system does not decrypt for the other, session by session. -/
def Rejects (master : Bytes) (a b : String) : Prop :=
  ∀ session bytes nonce enc, encryptMapping master session b bytes nonce = .ok enc →
    ∃ e, decryptMapping master session a enc = .error e

end Crypto

end PdGuard
