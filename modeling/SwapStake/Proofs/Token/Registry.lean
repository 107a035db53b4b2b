import SwapStake.Proofs.Answers
import SwapStake.Token.PairName
/-!
# Registries whose tables agree

A registration writes to two tables, and it is refused before it writes to any of them. So whatever is
registered or refused after the native coin, each table is the inverse of the other, and every name can
stand on either side of the separator (`TokenRegistry.offerAll_consistent`).
-/

namespace SwapStake

/-- A name that can stand on either side of the separator. -/
structure ProperName (name : String) : Prop where
  nonempty : name.toList ≠ []
  plain : pairSeparator ∉ name.toList

namespace TokenRegistry

/-- The registry after a call to register, accepted or refused. -/
def offer (r : TokenRegistry) (call : TokenId × String) : TokenRegistry :=
  (r.register call.1 call.2).toOption.getD r

def offerAll (r : TokenRegistry) (calls : List (TokenId × String)) : TokenRegistry :=
  calls.foldl offer r

/-- The tables are inverse to each other, and hold proper names only. -/
structure Consistent (r : TokenRegistry) : Prop where
  inverse : ∀ t name, r.nameOf? t = some name ↔ r.idOf? name = some t
  proper : ∀ t name, r.nameOf? t = some name → ProperName name

variable {r r' : TokenRegistry} {t : TokenId} {name : String}

theorem nameOf?_cons (r : TokenRegistry) (t : TokenId) (name : String) (ids : List (String × TokenId))
    (t' : TokenId) :
    nameOf? { r with names := (t, name) :: r.names, ids } t' = if t' = t then some name else r.nameOf? t' :=
  lookup_cons_ite t name r.names t'

theorem idOf?_cons (r : TokenRegistry) (t : TokenId) (name : String) (names : List (TokenId × String))
    (name' : String) :
    idOf? { r with names, ids := (name, t) :: r.ids } name' = if name' = name then some t else r.idOf? name' :=
  lookup_cons_ite name t r.ids name'

/-- **A token is accepted exactly if its name is proper and both its number and its name are new.** -/
theorem register_eq_ok_iff : r.register t name = .ok r' ↔
    ProperName name ∧ r.nameOf? t = none ∧ r.idOf? name = none ∧
      r' = { r with names := (t, name) :: r.names, ids := (name, t) :: r.ids } := by
  have hproper : ¬ (name.toList = [] ∨ pairSeparator ∈ name.toList) ↔ ProperName name := by
    rw [not_or]
    exact ⟨fun h => ⟨h.1, h.2⟩, fun h => ⟨h.nonempty, h.plain⟩⟩
  rw [register, guard_eq_ok_iff, guard_eq_ok_iff, hproper, not_or, Option.not_isSome_iff_eq_none,
    Option.not_isSome_iff_eq_none, Except.ok.injEq, and_assoc]
  exact and_congr_right' (and_congr_right' (and_congr_right' eq_comm))

theorem register_eq_error_iff : (∃ e, r.register t name = .error e) ↔
    ¬ (ProperName name ∧ r.nameOf? t = none ∧ r.idOf? name = none) := by
  cases h : r.register t name with
  | error e =>
    refine iff_of_true ⟨e, rfl⟩ fun ⟨hproper, hnumber, hname⟩ => ?_
    rw [register_eq_ok_iff.2 ⟨hproper, hnumber, hname, rfl⟩] at h
    cases h
  | ok r' =>
    obtain ⟨hproper, hnumber, hname, -⟩ := register_eq_ok_iff.1 h
    exact iff_of_false nofun (not_not_intro ⟨hproper, hnumber, hname⟩)

theorem offer_of_error {e : NameError} (h : r.register t name = .error e) : r.offer (t, name) = r := by
  rw [offer, h]
  rfl

theorem offer_of_ok (h : r.register t name = .ok r') : r.offer (t, name) = r' := by
  rw [offer, h]
  rfl

theorem Consistent.enter (before : r.Consistent) (number : r.nameOf? t = none) (new : r.idOf? name = none)
    (proper : ProperName name) :
    Consistent { r with names := (t, name) :: r.names, ids := (name, t) :: r.ids } where
  inverse t' name' := by
    rw [nameOf?_cons, idOf?_cons]
    have hnumber : t' = t → r.idOf? name' ≠ some t' := by
      rintro rfl
      rw [ne_eq, ← before.inverse, number]
      exact nofun
    have hname : name' = name → r.nameOf? t' ≠ some name' := by
      rintro rfl
      rw [ne_eq, before.inverse, new]
      exact nofun
    have hbefore := before.inverse t' name'
    by_cases ht : t' = t <;> by_cases hn : name' = name <;> grind
  proper t' name' h := by
    rw [nameOf?_cons] at h
    split at h
    · exact Option.some.inj h ▸ proper
    · exact before.proper t' name' h

theorem new_consistent (native : TokenId) (proper : ProperName name) : (new native name).Consistent := by
  have hempty : Consistent ⟨native, [], []⟩ :=
    ⟨fun t name => by simp [nameOf?, idOf?], fun t name h => by simp [nameOf?] at h⟩
  exact hempty.enter rfl rfl proper

theorem Consistent.register (before : r.Consistent) (h : r.register t name = .ok r') : r'.Consistent := by
  obtain ⟨hproper, hnumber, hname, rfl⟩ := register_eq_ok_iff.1 h
  exact before.enter hnumber hname hproper

theorem Consistent.offer (before : r.Consistent) (call : TokenId × String) : (r.offer call).Consistent := by
  cases h : r.register call.1 call.2 with
  | error e => rwa [offer_of_error h]
  | ok r' =>
    rw [offer_of_ok h]
    exact before.register h

theorem offer_native (r : TokenRegistry) (call : TokenId × String) : (r.offer call).native = r.native := by
  cases h : r.register call.1 call.2 with
  | error e => rw [offer_of_error h]
  | ok r' =>
    obtain ⟨-, -, -, hr⟩ := register_eq_ok_iff.1 h
    rw [offer_of_ok h, hr]

theorem Consistent.offerAll (before : r.Consistent) (calls : List (TokenId × String)) :
    (r.offerAll calls).Consistent := by
  induction calls generalizing r with
  | nil => exact before
  | cons call calls ih => exact ih (before.offer call)

theorem offerAll_native (r : TokenRegistry) (calls : List (TokenId × String)) :
    (r.offerAll calls).native = r.native := by
  induction calls generalizing r with
  | nil => rfl
  | cons call calls ih => exact (ih (r.offer call)).trans (r.offer_native call)

end TokenRegistry

end SwapStake
