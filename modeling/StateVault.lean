import StateVault.Envelope.Record
import StateVault.Host
import StateVault.Settings.Toml
import StateVault.StreamStore
import StateVault.Vault.Resizing
import StateVault.Vault.Stats
import StateVault.Proofs.Vault.Ownership
import StateVault.Proofs.Bytes.Pointwise
import StateVault.Proofs.Storage.Tally
import StateVault.Proofs.Directory.Codec
import StateVault.Proofs.Vault.Endangered
import StateVault.Proofs.Vault.Agreement
import StateVault.Proofs.Vault.Fallback
import StateVault.Proofs.Cursor.Errors
import StateVault.Proofs.Storage.InMemory
import StateVault.Proofs.Vault.Admission
import StateVault.Proofs.Storage.Stopping
import StateVault.Proofs.Vault.Transient
import StateVault.Proofs.Vault.Exactness
import StateVault.Proofs.BlockMap.Refinement
import StateVault.Proofs.Envelope.RoundTrip
import StateVault.Proofs.Envelope.Stored
import StateVault.Proofs.Vault.Rollback
import StateVault.Proofs.Vault.Refusals
import StateVault.Proofs.Checksum.Register
import StateVault.Proofs.Superblock.RoundTrip
import StateVault.Proofs.Superblock.Selection
import StateVault.Proofs.Directory.RoundTrip
import StateVault.Proofs.Vault.Bursts
import StateVault.Proofs.BlockMap.LowestRun
import StateVault.Proofs.Vault.Growth
import StateVault.Proofs.Vault.CopyOnWrite
import StateVault.Proofs.Vault.Shortage
import StateVault.Proofs.BlockMap.Consistency
import StateVault.Proofs.Vault.Formatting
import StateVault.Proofs.Envelope.Printable
import StateVault.Proofs.Json.Layout
import StateVault.Proofs.Cursor.Discipline
import StateVault.Proofs.Storage.Backends
import StateVault.Proofs.Vault.Reckoning
