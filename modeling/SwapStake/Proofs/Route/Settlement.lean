import Mathlib.Algebra.BigOperators.Group.Finset.Basic
import Mathlib.Data.Fintype.Basic
import SwapStake.Proofs.Route.Flow
import SwapStake.Route.Market
/-!
# Settling plans in a market

A plan is settled by applying its swaps one after the other, each to the pool at its own place of
the market. No place comes twice on a path, so every pool is still as it was planned for when its
swap arrives: nothing is refused (`settle_applied`), and what the hops pass on to each other leaves
the totals of the market alone (`settle_total`). A run serves one order after the other, and its
trail are the markets that it passes, hop by hop.
-/

namespace SwapStake

/-- The units of a token in the reserves of a pool. A pool of one token with itself counts both. -/
def Pool.holding (t : TokenId) (p : Pool) : Nat :=
  (if p.token1 = t then p.reserves.reserve1.toNat else 0) +
    (if p.token2 = t then p.reserves.reserve2.toNat else 0)

/-- The pool with the reserves that a swap leaves. -/
def Pool.afterSwap (p : Pool) (s : Swap) : Pool :=
  { p with reserves := s.after }

theorem Swap.Moves.applySwap {s : Swap} {p : Pool} {t u : TokenId} {x y : UInt64} (h : s.Moves p t u x y) :
    p.applySwap s = .ok (p.afterSwap s) := by
  rw [Pool.applySwap, if_neg (by simp [h.token1, h.token2]), if_neg (by simp [h.before])]
  rfl

theorem Swap.Moves.holding {s : Swap} {p : Pool} {t u : TokenId} {x y : UInt64} (h : s.Moves p t u x y)
    (token : TokenId) :
    (p.afterSwap s).holding token + (if u = token then y.toNat else 0) =
      p.holding token + (if t = token then x.toNat else 0) := by
  obtain ⟨-, -, hbefore, hsides⟩ := h
  rw [hbefore] at hsides
  unfold Pool.holding Pool.afterSwap
  rcases hsides with ⟨rfl, rfl, h1, h2⟩ | ⟨-, rfl, rfl, h1, h2⟩
  · split <;> split <;> dsimp only <;> omega
  · split <;> split <;> dsimp only <;> omega

namespace Market

variable {n : Nat} {q : SwapRequest}

/-- The units of a token in the reserves of all pools. -/
def total (m : Market n) (t : TokenId) : Nat :=
  ∑ i : Fin n, (m.pool i).holding t

theorem pool_set_self (m : Market n) (i : Fin n) (p : Pool) : (m.set i p).pool i = p := by
  exact Vector.getElem_set_self i.isLt

theorem pool_set_of_ne (m : Market n) {i j : Fin n} (p : Pool) (h : i ≠ j) :
    (m.set i p).pool j = m.pool j := by
  have hne : i.val ≠ j.val := fun e => h (Fin.ext e)
  exact Vector.getElem_set_ne i.isLt j.isLt hne

theorem total_set (m : Market n) (i : Fin n) (p : Pool) (t : TokenId) :
    (m.set i p).total t + (m.pool i).holding t = m.total t + p.holding t := by
  have hnew := Finset.add_sum_erase Finset.univ (fun j : Fin n => ((m.set i p).pool j).holding t)
    (Finset.mem_univ i)
  have hold := Finset.add_sum_erase Finset.univ (fun j : Fin n => (m.pool j).holding t) (Finset.mem_univ i)
  have hrest : ∑ j ∈ Finset.univ.erase i, ((m.set i p).pool j).holding t =
      ∑ j ∈ Finset.univ.erase i, (m.pool j).holding t :=
    Finset.sum_congr rfl fun j hj => by
      rw [pool_set_of_ne m p (Ne.symm (Finset.ne_of_mem_erase hj))]
  rw [pool_set_self] at hnew
  unfold total
  omega

theorem onPath_set (m : Market n) {i : Fin n} {path : List (Fin n)} (p : Pool) (h : i ∉ path) :
    (m.set i p).onPath path = m.onPath path := by
  refine List.map_congr_left fun j hj => pool_set_of_ne m p ?_
  rintro rfl
  exact h hj

theorem nodup_of_shares (m : Market n) {path : List (Fin n)}
    (h : ((m.onPath path).map Pool.share).Nodup) : path.Nodup := by
  rw [onPath, List.map_map] at h
  exact h.of_map _

theorem settle_cons_of_moves {m : Market n} {i : Fin n} {path : List (Fin n)} {s : Swap} {swaps : List Swap}
    {t u : TokenId} {x y : UInt64} (h : s.Moves (m.pool i) t u x y) :
    m.settle ((i :: path).zip (s :: swaps)) =
      (.ok ((m.pool i).afterSwap s) :: ((m.set i ((m.pool i).afterSwap s)).settle (path.zip swaps)).1,
        ((m.set i ((m.pool i).afterSwap s)).settle (path.zip swaps)).2) := by
  rw [List.zip_cons_cons, settle, h.applySwap]

theorem carried_cons {m : Market n} {i : Fin n} {path : List (Fin n)} {swaps : List Swap} {t d : TokenId}
    {x z : UInt64} (hi : i ∉ path) (h : Carried q (m.onPath (i :: path)) swaps t x d z) :
    ∃ s later u y, swaps = s :: later ∧ s.Moves (m.pool i) t u x y ∧ q.Priced ((m.pool i).facing t) x y ∧
      Carried q ((m.set i ((m.pool i).afterSwap s)).onPath path) later u y d z := by
  rw [onPath, List.map_cons] at h
  cases h with
  | @hop _ s _ later _ u _ _ y _ moves priced rest =>
    refine ⟨s, later, u, y, rfl, moves, priced, ?_⟩
    rw [onPath_set m _ hi]
    exact rest

theorem settle_applied {path : List (Fin n)} :
    ∀ {m : Market n} {swaps : List Swap} {t d : TokenId} {x z : UInt64}, path.Nodup →
      Carried q (m.onPath path) swaps t x d z →
      (m.settle (path.zip swaps)).1 = List.zipWith (fun p s => .ok (p.afterSwap s)) (m.onPath path) swaps := by
  induction path with
  | nil =>
    intro m swaps t d x z _ _
    rfl
  | cons i path ih =>
    intro m swaps t d x z hnodup hcarried
    obtain ⟨hi, hrest⟩ := List.nodup_cons.1 hnodup
    obtain ⟨s, later, u, y, rfl, hmoves, -, hlater⟩ := carried_cons hi hcarried
    rw [settle_cons_of_moves hmoves, ih hrest hlater, onPath_set m _ hi]
    rfl

/-- What the hops pass on to each other stays in the market: its totals change by what enters at the
source and by what leaves at the destination. -/
theorem settle_total {path : List (Fin n)} (token : TokenId) :
    ∀ {m : Market n} {swaps : List Swap} {t d : TokenId} {x z : UInt64}, path.Nodup →
      Carried q (m.onPath path) swaps t x d z →
      (m.settle (path.zip swaps)).2.total token + (if d = token then z.toNat else 0) =
        m.total token + (if t = token then x.toNat else 0) := by
  induction path with
  | nil =>
    intro m swaps t d x z _ hcarried
    cases hcarried
    rfl
  | cons i path ih =>
    intro m swaps t d x z hnodup hcarried
    obtain ⟨hi, hrest⟩ := List.nodup_cons.1 hnodup
    obtain ⟨s, later, u, y, rfl, hmoves, -, hlater⟩ := carried_cons hi hcarried
    rw [settle_cons_of_moves hmoves]
    have htotal := ih hrest hlater
    have hset := m.total_set i ((m.pool i).afterSwap s) token
    have hswap := hmoves.holding token
    dsimp only
    omega

theorem settle_pool_of_not_mem {path : List (Fin n)} {j : Fin n} (hj : j ∉ path) :
    ∀ (m : Market n) (swaps : List Swap), (m.settle (path.zip swaps)).2.pool j = m.pool j := by
  induction path with
  | nil =>
    intro m swaps
    rfl
  | cons i path ih =>
    intro m swaps
    obtain ⟨hne, hrest⟩ := List.ne_and_not_mem_of_not_mem_cons hj
    cases swaps with
    | nil => rfl
    | cons s swaps =>
      rw [List.zip_cons_cons, settle]
      cases (m.pool i).applySwap s with
      | ok p => exact (ih hrest (m.set i p) swaps).trans (pool_set_of_ne m p hne.symm)
      | error _ => exact ih hrest m swaps

theorem settle_onPath {path : List (Fin n)} :
    ∀ {m : Market n} {swaps : List Swap} {t d : TokenId} {x z : UInt64}, path.Nodup →
      Carried q (m.onPath path) swaps t x d z →
      (m.settle (path.zip swaps)).2.onPath path = List.zipWith Pool.afterSwap (m.onPath path) swaps := by
  induction path with
  | nil =>
    intro m swaps t d x z _ _
    rfl
  | cons i path ih =>
    intro m swaps t d x z hnodup hcarried
    obtain ⟨hi, hrest⟩ := List.nodup_cons.1 hnodup
    obtain ⟨s, later, u, y, rfl, hmoves, -, hlater⟩ := carried_cons hi hcarried
    have hhead := settle_pool_of_not_mem hi (m.set i ((m.pool i).afterSwap s)) later
    have htail := ih hrest hlater
    rw [pool_set_self] at hhead
    rw [onPath_set m _ hi] at htail
    rw [settle_cons_of_moves hmoves]
    exact congrArg₂ List.cons hhead htail

end Market

/-! ## Orders -/

/-- A request, the path that it takes through the market, and who plans it. -/
structure MarketOrder (n : Nat) where
  router : Router
  path : List (Fin n)
  request : SwapRequest
deriving DecidableEq, Repr

namespace Market

def place (m : Market n) (o : MarketOrder n) : Except RouteError (Outcome n) :=
  m.trade o.router.plan o.path o.request

/-- The market after an order. One that cannot be planned changes nothing. -/
def serve (m : Market n) (o : MarketOrder n) : Market n :=
  match m.place o with
  | .ok out => out.market
  | .error _ => m

def run (m : Market n) (orders : List (MarketOrder n)) : Market n :=
  orders.foldl serve m

theorem run_cons (m : Market n) (o : MarketOrder n) (orders : List (MarketOrder n)) :
    m.run (o :: orders) = (m.serve o).run orders := rfl

/-- The markets that settling swaps passes, the last one left out. -/
def passed (m : Market n) : List (Fin n × Swap) → List (Market n)
  | [] => []
  | (i, s) :: rest =>
    m :: (match (m.pool i).applySwap s with
      | .ok p => m.set i p
      | .error _ => m).passed rest

/-- All markets of a run, from the first to the last, one for each swap that is applied. -/
def trail (m : Market n) : List (MarketOrder n) → List (Market n)
  | [] => [m]
  | o :: orders =>
    match m.place o with
    | .ok out => m.passed (o.path.zip out.plan.swaps) ++ out.market.trail orders
    | .error _ => m.trail orders

theorem passed_cons_of_moves {m : Market n} {i : Fin n} {path : List (Fin n)} {s : Swap} {swaps : List Swap}
    {t u : TokenId} {x y : UInt64} (h : s.Moves (m.pool i) t u x y) :
    m.passed ((i :: path).zip (s :: swaps)) =
      m :: (m.set i ((m.pool i).afterSwap s)).passed (path.zip swaps) := by
  rw [List.zip_cons_cons, passed, h.applySwap]

theorem trail_getLast? (orders : List (MarketOrder n)) :
    ∀ m : Market n, (m.trail orders).getLast? = some (m.run orders) := by
  induction orders with
  | nil =>
    intro m
    rfl
  | cons o orders ih =>
    intro m
    rw [run_cons, trail, serve]
    cases m.place o with
    | ok out => rw [List.getLast?_append, ih, Option.some_or]
    | error _ => exact ih m

theorem place_plan {m : Market n} {o : MarketOrder n} {out : Outcome n} (h : m.place o = .ok out) :
    o.router.plan (m.onPath o.path) o.request = .ok out.plan := by
  obtain ⟨plan, hplan, rfl⟩ := map_eq_ok_iff.1 h
  exact hplan

theorem place_follows {m : Market n} {o : MarketOrder n} {out : Outcome n} (h : m.place o = .ok out) :
    out.plan.Follows (m.onPath o.path) o.request ∧ o.path.Nodup ∧
      m.settle (o.path.zip out.plan.swaps) = (out.applied, out.market) := by
  have hfollows := Router.plan_follows (place_plan h)
  obtain ⟨plan, -, rfl⟩ := map_eq_ok_iff.1 h
  exact ⟨hfollows, nodup_of_shares m hfollows.shares, rfl⟩

end Market

end SwapStake
