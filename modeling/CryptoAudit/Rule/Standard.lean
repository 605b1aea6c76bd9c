import CryptoAudit.Rule.Basic

/-!
# The standard rules

The rules that are used where no rule file is given. They watch the factory methods of the Java
cryptography API, each of which takes the algorithm first and may take a provider second.
-/

namespace CryptoAudit.Rule

/-- Digests that are too weak. -/
def weakDigests : String := "(?i)^(MD2|MD4|MD5|SHA-?1|SHA|RIPEMD\\d*)$"

/-- Ciphers that are too weak, and the code book mode of any cipher. -/
def weakCiphers : String :=
  "(?i)^(DES|DESede|3DES|TripleDES|RC2|RC4|ARCFOUR|Blowfish)(/.*)?$|/ECB/"

/-- Authentication codes over weak digests. -/
def weakMacs : String := "(?i)^Hmac(MD5|SHA1)$"

/-- Signatures over weak digests. -/
def weakSignatures : String := "(?i)^(MD5|SHA1)with"

/-- Random number generators over weak digests. -/
def weakRandom : String := "(?i)^SHA1PRNG$"

/-- A rule for a factory method. -/
def factory (id category declaringType : String) (pattern : Option String) (severity : Severity)
    (description : String) : RawRule where
  id := some id
  category
  declaringType
  methodName := "getInstance"
  algorithmIndex := 0
  providerIndex := some 1
  pattern
  severity
  description

/-- The standard rules as they are written. -/
def standardRaw : List RawRule := [
  factory "FIPS-001" "MessageDigest" "java.security.MessageDigest" (some weakDigests) .high
    "Message digest algorithm and provider",
  factory "FIPS-002" "Cipher" "javax.crypto.Cipher" (some weakCiphers) .critical
    "Cipher transformation and provider",
  factory "FIPS-003" "Signature" "java.security.Signature" (some weakSignatures) .high
    "Signature algorithm and provider",
  factory "FIPS-004" "Mac" "javax.crypto.Mac" (some weakMacs) .medium
    "MAC algorithm and provider",
  factory "FIPS-005" "KeyGenerator" "javax.crypto.KeyGenerator" (some weakCiphers) .high
    "Symmetric key generation",
  factory "FIPS-006" "KeyPairGenerator" "java.security.KeyPairGenerator" none .medium
    "Asymmetric key pair generation",
  factory "FIPS-007" "KeyFactory" "java.security.KeyFactory" none .low
    "Key factory provider",
  factory "FIPS-008" "SecretKeyFactory" "javax.crypto.SecretKeyFactory" (some weakCiphers) .medium
    "Secret key factory algorithm and provider",
  factory "FIPS-009" "KeyAgreement" "javax.crypto.KeyAgreement" none .medium
    "Key agreement provider",
  factory "FIPS-010" "SecureRandom" "java.security.SecureRandom" (some weakRandom) .medium
    "Random number generator algorithm and provider"]

/-- The standard rules. -/
def standard : Except RuleError RuleSet := RuleSet.ofRaw standardRaw

end CryptoAudit.Rule
