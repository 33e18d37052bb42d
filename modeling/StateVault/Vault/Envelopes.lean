/-
  StateVault.Vault.Envelopes
  ──────────────────────────
  **ENVELOPES IN STREAMS.**
-/
import StateVault.Envelope
import StateVault.Vault.Streams

namespace StateVault.Vault

/-- The envelope in a stream. -/
def readEnvelope (name : String) : Action Envelope := do
  let payload ← read name
  Action.require (Envelope.decode payload)

/-- Create a stream with an envelope in it, or replace it and keep its flags. -/
def writeEnvelope (name : String) (e : Envelope) : Action Unit :=
  write name e.encode

end StateVault.Vault
