/-
  StateVault.Session
  ──────────────────
  **ONE VAULT AT A TIME ON A MEDIUM.**

  A session holds a medium and the vault that is open on it, if one is.
  Vaults come by formatting or mounting and go by closing, or when the next
  one comes.  The medium stays throughout.
-/
import StateVault.Vault.Opening

namespace StateVault

structure Session (μ : Type) where
  medium : μ
  vault : Option Vault

namespace Session

variable {α μ : Type}

/-- A medium with no vault open on it. -/
def start (medium : μ) : Session μ :=
  ⟨medium, none⟩

/-- What came of a script that yields a vault; a failure leaves none open. -/
def settle : Except Error Vault × μ → Except Error Unit × Session μ
  | (.ok vault, medium) => (.ok (), ⟨medium, some vault⟩)
  | (.error e, medium) => (.error e, ⟨medium, none⟩)

/-- Drop the open vault, and make an empty one in its place. -/
def format [Medium μ] (settings : Settings) (s : Session μ) : Except Error Unit × Session μ :=
  settle ((Vault.format settings).run s.medium)

/-- Drop the open vault, and open the one that the medium holds. -/
def mount [Medium μ] (settings : Settings) (s : Session μ) : Except Error Unit × Session μ :=
  settle ((Vault.mount settings).run s.medium)

/-- Close the open vault, if there is one; it is gone also after an error. -/
def close [Medium μ] (s : Session μ) : Option (Except Error Unit) × Session μ :=
  match s.vault with
  | none => (none, s)
  | some _ =>
      let (result, medium) := Vault.close.run s.medium
      (some result, ⟨medium, none⟩)

/-- Act on the open vault, if there is one. -/
def act [Medium μ] (action : Action α) (s : Session μ) :
    Option (Except Error α) × Session μ :=
  match s.vault with
  | none => (none, s)
  | some vault =>
      let ((result, vault), medium) := (action vault).run s.medium
      (some result, ⟨medium, some vault⟩)

/-- Change the medium underneath the open vault. -/
def under (f : μ → α × μ) (s : Session μ) : α × Session μ :=
  let (a, medium) := f s.medium
  (a, { s with medium })

end Session

end StateVault
