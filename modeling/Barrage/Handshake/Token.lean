import Barrage.Digest.Hmac
import Barrage.Json.Record
import Barrage.Text.Base64

/-!
Handshake tokens.

The side that opens a connection presents its client id and a nonce, signed with the shared secret:
the signature is the base64 text of the keyed digest of the body, which joins id and nonce by a bar.
A token is verified by decoding its signature and comparing the digests.
-/

namespace Barrage

open Json (Value)

/-- What an initiator presents and an acceptor echoes. -/
structure Token where
  clientId : String
  nonce : String
  signature : String
  deriving Repr, DecidableEq, Inhabited

namespace Token

/-- The bytes of a text. -/
def bytes (s : String) : List UInt8 := s.toUTF8.toList

/-- The signed text. -/
def body (clientId nonce : String) : String := clientId ++ "|" ++ nonce

/-- The keyed digest of the body. -/
def digest (clientId nonce secret : String) : List UInt8 :=
  Digest.hmac (bytes secret) (bytes (body clientId nonce))

/-- The signature of an id and a nonce. -/
def signatureFor (clientId nonce secret : String) : String :=
  String.ofList (Text.Base64.encode (digest clientId nonce secret))

/-- The token of an id and a nonce. -/
def sign (clientId nonce secret : String) : Token :=
  ⟨clientId, nonce, signatureFor clientId nonce secret⟩

/-- Whether the signature is that of the token's id and nonce. -/
def verify (t : Token) (secret : String) : Bool :=
  match Text.Base64.decode t.signature.toList with
  | some provided => provided == digest t.clientId t.nonce secret
  | none => false

/-- The JSON form of a token, in the order of its fields. -/
def toValue (t : Token) : Value :=
  .object
    [("client_id", .string t.clientId), ("nonce", .string t.nonce),
      ("signature", .string t.signature)]

/-- Reads a token. -/
def read? {V : Type} [Form V] (v : V) : Option Token :=
  match Form.fields? ["client_id", "nonce", "signature"] v with
  | some [some clientId, some nonce, some signature] => do
    let clientId ← Form.text? clientId
    let nonce ← Form.text? nonce
    let signature ← Form.text? signature
    return ⟨clientId, nonce, signature⟩
  | _ => none

end Token

end Barrage
