import PkiEnroll.Bytes

namespace PkiEnroll.Hash

structure HashFunction where
  blockBytes : Nat
  digest : Bytes → Bytes

/-- The message, a one bit, zeros, and the length in bits at the end of the last block. -/
def pad (blockBytes lengthBytes : Nat) (message : Bytes) : Bytes :=
  let used := message.length + 1 + lengthBytes
  message ++ 0x80 :: List.replicate ((blockBytes - used % blockBytes) % blockBytes) 0 ++
    Bytes.ofNat lengthBytes (8 * message.length)

namespace HashFunction

/-- A key longer than a block is hashed; a shorter one is filled up with zeros. -/
def blockKey (h : HashFunction) (key : Bytes) : Bytes :=
  let k := if h.blockBytes < key.length then h.digest key else key
  k ++ List.replicate (h.blockBytes - k.length) 0

def hmac (h : HashFunction) (key message : Bytes) : Bytes :=
  let k := h.blockKey key
  h.digest (k.map (· ^^^ 0x5c) ++ h.digest (k.map (· ^^^ 0x36) ++ message))

end HashFunction

end PkiEnroll.Hash
