import BitcoinSpend.Hash.Ripemd160
import BitcoinSpend.Hash.Sha1
import BitcoinSpend.Hash.Sha256

/-!
# Composite hashes

The two hashes that identify things in transactions: `hash160` for keys and scripts, `hash256` for
transactions and signature messages.
-/

namespace BitcoinSpend.Hash

/-- The RIPEMD-160 digest of the SHA-256 digest. -/
def hash160 (message : Bytes) : Bytes :=
  ripemd160 (sha256 message)

/-- SHA-256 applied twice. -/
def hash256 (message : Bytes) : Bytes :=
  sha256 (sha256 message)

/-- A digest that identifies a key or a script has twenty bytes. -/
theorem length_hash160 (message : Bytes) : (hash160 message).length = 20 :=
  length_ripemd160 _

/-- A digest that identifies a transaction has thirty-two bytes. -/
theorem length_hash256 (message : Bytes) : (hash256 message).length = 32 :=
  length_sha256 _

end BitcoinSpend.Hash
