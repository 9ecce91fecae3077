/-
# Places that serve one tenant after the other

A place is let to a tenant, vacated, and let again.  Visitors come to a place for
its tenant and leave things there.  If a place is vacated only when no visitor of
the tenant is left in it, and let only when nothing is left in it, then whatever
lies in a place was left there for its tenant.
-/
import Mathlib.Data.List.Basic

namespace ThresholdDsa.Recycling

variable {ι ν τ : Type}

/-- The tenant of each place, the place and the tenant that each visitor visits, and for whom the
things in a place were left. -/
structure Site (ι ν τ : Type) where
  tenant : ι → Option τ
  visit : ν → Option (ι × τ)
  left : ι → List τ

/-- What one step may do: a new visitor finds the tenant in, a tenant with visitors stays, things
are left by visitors, and a new tenant finds the place empty. -/
structure Site.Step (s s' : Site ι ν τ) : Prop where
  enters : ∀ v i t, s'.visit v = some (i, t) → s.visit v = some (i, t) ∨ s'.tenant i = some t
  stays : ∀ v i t, s'.visit v = some (i, t) → s.tenant i = some t → s'.tenant i = some t
  leaves : ∀ i x, x ∈ s'.left i → x ∈ s.left i ∨ ∃ v, s.visit v = some (i, x)
  lets : ∀ i t, s'.tenant i = some t → s.tenant i = some t ∨ s'.left i = []

/-- Visitors are with the tenant they came for, and what lies in a place is its tenant's. -/
structure Site.Hosted (s : Site ι ν τ) : Prop where
  visitor : ∀ {v i t}, s.visit v = some (i, t) → s.tenant i = some t
  left : ∀ {i t x}, s.tenant i = some t → x ∈ s.left i → x = t

theorem Site.Hosted.step {s s' : Site ι ν τ} (hosted : s.Hosted) (step : s.Step s') :
    s'.Hosted where
  visitor {v i t} visits := by
    rcases step.enters v i t visits with before | enters
    · exact step.stays v i t visits (hosted.visitor before)
    · exact enters
  left {i t x} tenant mem := by
    rcases step.lets i t tenant with before | empty
    · rcases step.leaves i x mem with old | ⟨v, visits⟩
      · exact hosted.left before old
      · exact Option.some.inj ((hosted.visitor visits).symm.trans before)
    · simp [empty] at mem

end ThresholdDsa.Recycling
