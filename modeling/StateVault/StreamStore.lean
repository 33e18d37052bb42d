/-
  StateVault.StreamStore
  ──────────────────────
  **ANY STORE OF NAMED STREAMS.**

  Firmware and host parts need four operations of a store, and the right to
  fail; envelopes follow from these.  An open vault is such a store.
-/
import StateVault.Vault.Envelopes

namespace StateVault

/-- A store of named streams, whose operations run in `m`. -/
class StreamStore (m : Type → Type) [Monad m] where
  readStream : String → m ByteArray
  writeStream : String → ByteArray → m Unit
  deleteStream : String → m Unit
  streamNames : m (List String)
  /-- A result computed apart from the store. -/
  require : {α : Type} → Except Error α → m α

namespace StreamStore

variable {m : Type → Type} [Monad m] [StreamStore m]

/-- A stream, read as an envelope. -/
def readEnvelope (name : String) : m Envelope := do
  require (Envelope.decode (← readStream name))

/-- An envelope, written to a stream. -/
def writeEnvelope (name : String) (e : Envelope) : m Unit :=
  writeStream name e.encode

end StreamStore

instance : StreamStore Action where
  readStream := Vault.read
  writeStream := Vault.write
  deleteStream := Vault.delete
  streamNames := do return (← Action.vault).directory.names
  require := Action.require

end StateVault
