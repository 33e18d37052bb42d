/-
  StateVault.Proofs.Vault.Upheld
  ──────────────────────────────
  **A HANDLE THAT SERVES AN IMAGE OF ANY LENGTH.**

  A shrink of a vault that may grow can leave an image that is shorter than
  its superblock says.  No vault can be mounted from it then, but the handle
  goes on: superblock, directory and all streams are in what is left
  (`Upheld`), and every request keeps that, shrinks of every kind included.

    • `Request.ensures_upheld` — one request,
    • `Handle.Obtained.upheld` — any run of them, with closing and opening,
    • `reopen_of_upheld`       — which images can be opened again.
-/
import StateVault.Proofs.Vault.Agreement
import StateVault.Proofs.Vault.Shrinking

namespace StateVault.Vault

variable {v w : Vault} {t t' : Watched}

/-! ## §1. What every request keeps. -/

/-- An open vault that its image attests and serves, with its directory in the
image. -/
structure Upheld (v : Vault) (image : Image) : Prop where
  live : v.Live image
  attested : v.Attested image
  directory : v.HasDirectory image

theorem Attached.upheld {image : Image} (h : v.Attached image) : v.Upheld image :=
  ⟨h.live, h.attested, h.hasDirectory⟩

/-- What requests can do leaves a vault upheld. -/
theorem Upheld.course (h : v.Upheld t.image) (hcourse : Course Failures.none v t w t') :
    w.Upheld t'.image :=
  ⟨hcourse.live h.live, hcourse.attested Failures.clean_none h.live h.directory h.attested,
    hcourse.hasDirectory h.live h.directory⟩

/-- **One request**, whatever comes of it. -/
theorem Request.ensures_upheld (h : v.Upheld t.image) (r : Request) :
    (r.action v).Ensures Failures.none (fun _ => True) t fun outcome t' =>
      outcome.2.Upheld t'.image :=
  (Request.ensures_course h.live r).mono fun _ _ hend => h.course hend.1

/-! ## §2. Runs. -/

/-- Closing and opening finds the vault if the image is as long as the
superblock says, and fails if it is not. -/
theorem reopen_of_upheld (h : v.Upheld t.image) (settings : Settings) :
    (close.andThen fun _ => mount settings).Ensures Failures.none (fun _ => True) t
      fun result t' =>
        match result with
        | .ok w => t' = t ∧ v.Covers t.image ∧ v.Reopened settings w
        | .error _ => Acceptable settings → ¬ v.Covers t.image := by
  -- opening depends on whether the image is as long as its superblock says
  by_cases hcovers : v.Covers t.image
  · refine (reopen_of_attested h.live.sound h.attested hcovers h.live.addressable settings).mono ?_
    intro result t' hend
    obtain ⟨hsame, hresult⟩ := hend
    cases result with
    | ok w => exact ⟨hsame, hcovers, hresult⟩
    | error e => exact fun hsettings => absurd hsettings hresult
  · rw [Script.ensures_andThen]
    refine ⟨trivial, fun result hsyncs => ?_⟩
    cases hsyncs with
    | failed hsync e => exact absurd hsync id
    | whole =>
      refine (mount_of_short h.live.sound h.live.addressable h.attested hcovers settings).mono ?_
      intro result t' hend
      obtain ⟨e, rfl, _⟩ := hend
      exact fun _ => hcovers

namespace Handle

variable {μ : Type} [Medium μ]

/-- The handles that come of formatting a medium or of opening one, of any
requests after that, and of closing and opening again.  No medium is so long
that its length is the largest word. -/
inductive Obtained : Handle μ → Prop where
  | formatted {settings : Settings} {v : Vault} {m m' : μ}
      (h : (format settings).run m = (.ok v, m')) : Obtained ⟨v, m'⟩
  | mounted {settings : Settings} {v : Vault} {m m' : μ}
      (hsize : Medium.size m < UInt64.size - 1)
      (h : (mount settings).run m = (.ok v, m')) : Obtained ⟨v, m'⟩
  | performed {h : Handle μ} (before : Obtained h) (r : Request) : Obtained (h.perform r).2
  | reopened {h : Handle μ} (before : Obtained h) {settings : Settings} {v : Vault} {m : μ}
      (hrun : (close.andThen fun _ => mount settings).run h.medium = (.ok v, m)) :
      Obtained ⟨v, m⟩

/-- The image of a medium that does not fail upholds the vault throughout. -/
theorem Obtained.upheld {image : μ → Image} (hobeys : Obeys Failures.none image)
    {h : Handle μ} (hr : h.Obtained) : h.vault.Upheld (image h.medium) := by
  induction hr with
  | @formatted settings v m m' hrun => exact (attached_of_format hobeys hrun).upheld
  | @mounted settings v m m' hsize hrun => exact (attached_of_mount hobeys hsize hrun).upheld
  | @performed h before r ih =>
    -- the step lemma, for any request
    obtain ⟨_, _, hafter⟩ :=
      (Request.ensures_upheld (t := ⟨image h.medium, 0⟩) ih r).on_medium hobeys
    exact hafter
  | @reopened h before settings v m hrun ih =>
    obtain ⟨_, _, hreopened⟩ := (reopen_of_upheld (t := ⟨image h.medium, 0⟩) ih
      settings).on_medium hobeys
    rw [hrun] at hreopened
    obtain ⟨hsame, hcovers, hreopened⟩ := hreopened
    have himage : image m = image h.medium := congrArg Watched.image hsame
    have hreopened : h.vault.Reopened settings v := hreopened
    rw [himage]
    exact (hreopened.attached ih.live ih.attested hcovers).upheld

end Handle

end StateVault.Vault
