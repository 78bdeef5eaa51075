import Barrage.Digest.Sha256

/-!
Keyed digests: HMAC with SHA-256.

A key longer than a block is replaced by its digest and then filled up with zeros to a block. The
keyed digest is the digest of the key masked with `0x5c` followed by the digest of the key masked
with `0x36` followed by the message. Keys of every length are accepted.
-/

namespace Barrage.Digest

/-- The key as one block of 64 bytes. -/
def keyBlock (key : List UInt8) : List UInt8 :=
  let short := if 64 < key.length then sha256 key else key
  short ++ List.replicate (64 - short.length) 0

/-- The keyed digest of a message. -/
def hmac (key message : List UInt8) : List UInt8 :=
  let block := keyBlock key
  let inner := sha256 (block.map (· ^^^ 0x36) ++ message)
  sha256 (block.map (· ^^^ 0x5c) ++ inner)

/-- Every keyed digest has 32 bytes. -/
theorem length_hmac (key message : List UInt8) : (hmac key message).length = 32 := rfl

end Barrage.Digest
