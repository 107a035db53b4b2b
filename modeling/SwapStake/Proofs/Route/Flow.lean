import SwapStake.Proofs.Pool.Quote
import SwapStake.Route.Plan
/-!
# What flows along a path

A plan is a chain of hops: what one hop lets out is what the next one takes in. `Flow` says so of
the changes of a walk, `Carried` of the swaps of the pools, each in its pool's own orientation. A
sale is walked forward and a purchase backward, but both leave the same chain behind, and only the
price of a hop (`SwapRequest.Priced`) tells them apart. `Plan.Follows` collects what a plan promises,
and `along_follows` that every plan keeps it.
-/

namespace SwapStake

variable {q : SwapRequest}

/-- The price of a hop: what the request has to pay into reserves so that they let out `received`. -/
def SwapRequest.Priced (q : SwapRequest) (r : Reserves) (paid received : UInt64) : Prop :=
  match q.side with
  | .sell => r.saleProceeds paid q.interest = .ok received ∧ received ≠ 0
  | .buy => r.inverted.buyCost received q.interest = .ok paid ∧ paid ≠ 0

/-- What comes in on the first side and what leaves on the second, without a carry or a borrow. -/
structure HopChange.Moves (c : HopChange) (paid received : UInt64) : Prop where
  enters : c.before.reserve1.toNat + paid.toNat = c.after.reserve1.toNat
  leaves : c.after.reserve2.toNat + received.toNat = c.before.reserve2.toNat

/-- The changes along a walk, each hop taking in what the hop before it lets out. -/
inductive Flow (q : SwapRequest) : List Reserves → List HopChange → UInt64 → UInt64 → Prop
  | done (x : UInt64) : Flow q [] [] x x
  | hop {r : Reserves} {c : HopChange} {walk : List Reserves} {changes : List HopChange} {x y z : UInt64}
      (before : c.before = r) (priced : q.Priced r x y) (moves : c.Moves x y)
      (rest : Flow q walk changes y z) : Flow q (r :: walk) (c :: changes) x z

/-! ## Both walks -/

theorem saleProceeds_le_reserve {r : Reserves} {amount proceeds : UInt64} {interest : UInt32}
    (h : r.saleProceeds amount interest = .ok proceeds) : proceeds.toNat ≤ r.reserve2.toNat := by
  obtain ⟨-, -, h⟩ := Reserves.saleProceeds_eq_ok_iff.1 h
  have hquote := r.saleQuote_le amount
  omega

theorem SwapRequest.Priced.le_reserve {r : Reserves} {paid received : UInt64} (h : q.Priced r paid received) :
    received.toNat ≤ r.reserve2.toNat := by
  unfold SwapRequest.Priced at h
  cases hside : q.side with
  | sell =>
    rw [hside] at h
    exact saleProceeds_le_reserve h.1
  | buy =>
    rw [hside] at h
    exact Nat.le_of_lt (Reserves.buyCost_eq_ok_iff.1 h.1).1

theorem HopChange.of_moves {r : Reserves} {paid received : UInt64} {c : HopChange}
    (h : HopChange.of r paid received = .ok c) (hle : received.toNat ≤ r.reserve2.toNat) :
    c.before = r ∧ c.Moves paid received := by
  obtain ⟨reserve1, hadd, hc⟩ := bind_eq_ok_iff.1 h
  rw [orPoolError_eq_ok_iff, Word64.add?_eq_some_iff] at hadd
  rw [pure_eq_ok_iff] at hc
  subst hc
  exact ⟨rfl, hadd, Word64.toNat_sub_add hle⟩

theorem sellAlong_flow (hside : q.side = .sell) {walk : List Reserves} :
    ∀ {paid output : UInt64} {changes : List HopChange},
      Plan.sellAlong q.interest paid walk = .ok (changes, output) → Flow q walk changes paid output := by
  induction walk with
  | nil =>
    intro paid output changes h
    obtain ⟨rfl, rfl⟩ : [] = changes ∧ paid = output := by simpa [Plan.sellAlong] using h
    exact .done paid
  | cons r walk ih =>
    intro paid output changes h
    obtain ⟨received, hsale, h⟩ := bind_eq_ok_iff.1 h
    rw [onRoute_eq_ok_iff] at hsale
    obtain ⟨hnonzero, h⟩ := guard_eq_ok_iff.1 h
    obtain ⟨change, hchange, h⟩ := bind_eq_ok_iff.1 h
    rw [onRoute_eq_ok_iff] at hchange
    obtain ⟨⟨later, out⟩, hlater, h⟩ := bind_eq_ok_iff.1 h
    obtain ⟨rfl, rfl⟩ : change :: later = changes ∧ out = output := by simpa [pure_eq_ok_iff] using h
    have hpriced : q.Priced r paid received := by
      rw [SwapRequest.Priced, hside]
      exact ⟨hsale, hnonzero⟩
    obtain ⟨hbefore, hmoves⟩ := HopChange.of_moves hchange hpriced.le_reserve
    exact .hop hbefore hpriced hmoves (ih hlater)

theorem buyAlong_flow (hside : q.side = .buy) {walk : List Reserves} :
    ∀ {wanted cost : UInt64} {changes : List HopChange},
      Plan.buyAlong q.interest wanted walk = .ok (changes, cost) → Flow q walk changes cost wanted := by
  induction walk with
  | nil =>
    intro wanted cost changes h
    obtain ⟨rfl, rfl⟩ : [] = changes ∧ wanted = cost := by simpa [Plan.buyAlong] using h
    exact .done wanted
  | cons r walk ih =>
    intro wanted cost changes h
    obtain ⟨⟨later, output⟩, hlater, h⟩ := bind_eq_ok_iff.1 h
    obtain ⟨paid, hcost, h⟩ := bind_eq_ok_iff.1 h
    rw [onRoute_eq_ok_iff] at hcost
    obtain ⟨hnonzero, h⟩ := guard_eq_ok_iff.1 h
    obtain ⟨change, hchange, h⟩ := bind_eq_ok_iff.1 h
    rw [onRoute_eq_ok_iff] at hchange
    obtain ⟨rfl, rfl⟩ : change :: later = changes ∧ paid = cost := by simpa [pure_eq_ok_iff] using h
    have hpriced : q.Priced r paid output := by
      rw [SwapRequest.Priced, hside]
      exact ⟨hcost, hnonzero⟩
    obtain ⟨hbefore, hmoves⟩ := HopChange.of_moves hchange hpriced.le_reserve
    exact .hop hbefore hpriced hmoves (ih hlater)

theorem changesAlong_flow {walk : List Reserves} {changes : List HopChange} {amountIn amountOut : UInt64}
    (h : Plan.changesAlong q walk = .ok (changes, amountIn, amountOut)) :
    Flow q walk changes amountIn amountOut ∧ (q.side = .sell → amountIn = q.amount) ∧
      (q.side = .buy → amountOut = q.amount) := by
  unfold Plan.changesAlong at h
  cases hside : q.side with
  | sell =>
    rw [hside] at h
    obtain ⟨⟨cs, out⟩, hwalk, h⟩ := map_eq_ok_iff.1 h
    obtain ⟨rfl, rfl, rfl⟩ : cs = changes ∧ q.amount = amountIn ∧ out = amountOut := by simpa using h
    exact ⟨sellAlong_flow hside hwalk, fun _ => rfl, nofun⟩
  | buy =>
    rw [hside] at h
    obtain ⟨⟨cs, cost⟩, hwalk, h⟩ := map_eq_ok_iff.1 h
    obtain ⟨rfl, rfl, rfl⟩ : cs = changes ∧ cost = amountIn ∧ q.amount = amountOut := by simpa using h
    exact ⟨buyAlong_flow hside hwalk, nofun, fun _ => rfl⟩

/-! ## The two ends -/

theorem distance_of_add {a b x : UInt64} (h : a.toNat + x.toNat = b.toNat) : Word64.distance a b = x := by
  have hle : a ≤ b := by
    rw [UInt64.le_iff_toNat_le]
    omega
  rw [Word64.distance, if_pos hle, ← UInt64.toNat_inj, UInt64.toNat_sub_of_le _ _ hle]
  omega

theorem distance_of_sub {a b x : UInt64} (h : b.toNat + x.toNat = a.toNat) : Word64.distance a b = x := by
  rcases Nat.eq_zero_or_pos x.toNat with hzero | hpos
  · have hab : a.toNat + x.toNat = b.toNat := by omega
    exact distance_of_add hab
  · have hle : b ≤ a := by
      rw [UInt64.le_iff_toNat_le]
      omega
    have hnot : ¬ a ≤ b := by
      rw [UInt64.le_iff_toNat_le]
      omega
    rw [Word64.distance, if_neg hnot, ← UInt64.toNat_inj, UInt64.toNat_sub_of_le _ _ hle]
    omega

theorem Flow.enters {walk : List Reserves} {c : HopChange} {changes : List HopChange} {x z : UInt64}
    (h : Flow q walk (c :: changes) x z) : c.before.reserve1.toNat + x.toNat = c.after.reserve1.toNat := by
  cases h with
  | hop _ _ moves _ => exact moves.enters

theorem Flow.leaves {changes : List HopChange} :
    ∀ {walk : List Reserves} {c : HopChange} {x z : UInt64}, Flow q walk (c :: changes) x z →
      (changes.getLastD c).after.reserve2.toNat + z.toNat = (changes.getLastD c).before.reserve2.toNat := by
  induction changes with
  | nil =>
    intro walk c x z h
    cases h with
    | hop _ _ moves rest =>
      cases rest
      exact moves.leaves
  | cons d changes ih =>
    intro walk c x z h
    cases h with
    | hop _ _ _ rest =>
      rw [List.getLastD_cons]
      exact ih rest

/-! ## The swaps of the pools -/

/-- A swap of a pool that is entered with one token and left with the other: the reserve of the one
grows by `paid`, that of the other shrinks by `received`, and nothing wraps. -/
structure Swap.Moves (s : Swap) (p : Pool) (entering leaving : TokenId) (paid received : UInt64) : Prop where
  token1 : s.token1 = p.token1
  token2 : s.token2 = p.token2
  before : s.before = p.reserves
  sides : (entering = p.token1 ∧ leaving = p.token2 ∧
      s.before.reserve1.toNat + paid.toNat = s.after.reserve1.toNat ∧
      s.after.reserve2.toNat + received.toNat = s.before.reserve2.toNat) ∨
    (entering ≠ p.token1 ∧ entering = p.token2 ∧ leaving = p.token1 ∧
      s.before.reserve2.toNat + paid.toNat = s.after.reserve2.toNat ∧
      s.after.reserve1.toNat + received.toNat = s.before.reserve1.toNat)

/-- The swaps carry `paid` of the first token through the pools: each hop takes in the token and the
amount that the hop before it lets out, and `received` of the last token come out at the end. -/
inductive Carried (q : SwapRequest) :
    List Pool → List Swap → TokenId → UInt64 → TokenId → UInt64 → Prop
  | arrived (t : TokenId) (x : UInt64) : Carried q [] [] t x t x
  | hop {p : Pool} {s : Swap} {pools : List Pool} {swaps : List Swap} {t u d : TokenId} {x y z : UInt64}
      (moves : s.Moves p t u x y) (priced : q.Priced (p.facing t) x y)
      (rest : Carried q pools swaps u y d z) : Carried q (p :: pools) (s :: swaps) t x d z

theorem Carried.length {pools : List Pool} {swaps : List Swap} {t d : TokenId} {x z : UInt64}
    (h : Carried q pools swaps t x d z) : pools.length = swaps.length := by
  induction h with
  | arrived => rfl
  | hop _ _ _ ih => rw [List.length_cons, List.length_cons, ih]

theorem HopChange.toSwap_moves {c : HopChange} {p : Pool} {entering leaving : TokenId} {paid received : UInt64}
    (hother : p.other? entering = some leaving) (hbefore : c.before = p.facing entering)
    (h : c.Moves paid received) : (c.toSwap p entering).Moves p entering leaving paid received := by
  obtain ⟨henters, hleaves⟩ := h
  unfold Pool.other? at hother
  unfold Pool.facing at hbefore
  unfold HopChange.toSwap
  by_cases hfirst : entering = p.token1
  · rw [if_pos hfirst] at hother hbefore ⊢
    obtain rfl := Option.some.inj hother
    exact ⟨rfl, rfl, hbefore, .inl ⟨hfirst, rfl, henters, hleaves⟩⟩
  · rw [if_neg hfirst] at hother hbefore ⊢
    by_cases hsecond : entering = p.token2
    · rw [if_pos hsecond] at hother
      obtain rfl := Option.some.inj hother
      refine ⟨rfl, rfl, ?_, .inr ⟨hfirst, hsecond, rfl, henters, hleaves⟩⟩
      show c.before.inverted = p.reserves
      rw [hbefore]
      rfl
    · rw [if_neg hsecond] at hother
      cases hother

theorem follow_cons_eq_ok_iff {destination t : TokenId} {hop : Nat} {used ts : List TokenId} {p : Pool}
    {pools : List Pool} :
    Path.follow destination hop used t (p :: pools) = .ok ts ↔
      p.share ∉ used ∧ ∃ u later, p.other? t = some u ∧
        Path.follow destination (hop + 1) (p.share :: used) u pools = .ok later ∧ t :: later = ts := by
  rw [Path.follow, guard_eq_ok_iff]
  refine and_congr_right fun _ => ?_
  cases p.other? t with
  | none => simp
  | some u => simp [map_eq_ok_iff]

theorem follow_carried {destination : TokenId} {pools : List Pool} :
    ∀ {hop : Nat} {used ts : List TokenId} {t : TokenId} {changes : List HopChange} {x z : UInt64},
      Path.follow destination hop used t pools = .ok ts →
      Flow q (List.zipWith Pool.facing pools ts) changes x z →
      Carried q pools (List.zipWith (fun e c => c.toSwap e.1 e.2) (pools.zip ts) changes) t x destination z := by
  induction pools with
  | nil =>
    intro hop used ts t changes x z hfollow hflow
    rw [Path.follow] at hfollow
    split at hfollow
    · rename_i ht
      subst ht
      rw [List.zipWith_nil_left] at hflow
      cases hflow
      exact .arrived t x
    · cases hfollow
  | cons p pools ih =>
    intro hop used ts t changes x z hfollow hflow
    obtain ⟨-, u, later, hother, hlater, rfl⟩ := follow_cons_eq_ok_iff.1 hfollow
    rw [List.zipWith_cons_cons] at hflow
    cases hflow with
    | hop before priced moves rest =>
      exact .hop (HopChange.toSwap_moves hother before moves) priced (ih hlater rest)

theorem follow_shares {destination : TokenId} {pools : List Pool} :
    ∀ {hop : Nat} {used ts : List TokenId} {t : TokenId}, Path.follow destination hop used t pools = .ok ts →
      (pools.map Pool.share).Nodup ∧ ∀ share ∈ used, share ∉ pools.map Pool.share := by
  induction pools with
  | nil =>
    intro hop used ts t _
    exact ⟨List.nodup_nil, fun _ _ => List.not_mem_nil⟩
  | cons p pools ih =>
    intro hop used ts t hfollow
    obtain ⟨hnew, u, later, -, hlater, -⟩ := follow_cons_eq_ok_iff.1 hfollow
    obtain ⟨hnodup, hused⟩ := ih hlater
    rw [List.map_cons, List.nodup_cons]
    refine ⟨⟨hused _ (List.mem_cons_self), hnodup⟩, fun share hmem => ?_⟩
    rw [List.mem_cons, not_or]
    refine ⟨?_, hused _ (List.mem_cons_of_mem _ hmem)⟩
    rintro rfl
    exact hnew hmem

/-! ## Plans -/

/-- What a plan over some pools promises for a request. -/
structure Plan.Follows (plan : Plan) (pools : List Pool) (q : SwapRequest) : Prop where
  request : plan.request = q
  ends : q.source ≠ q.destination
  shares : (pools.map Pool.share).Nodup
  carried : Carried q pools plan.swaps q.source plan.amountIn q.destination plan.amountOut
  sold : q.side = .sell → plan.amountIn = q.amount
  bought : q.side = .buy → plan.amountOut = q.amount
  summary1 : plan.summary.token1 = q.source
  summary2 : plan.summary.token2 = q.destination
  traded : plan.summary.traded = plan.effectiveRatio

/-- **Every plan keeps what it promises.** -/
theorem along_follows {pools : List Pool} {plan : Plan} (h : Plan.along pools q = .ok plan) :
    plan.Follows pools q := by
  unfold Plan.along at h
  obtain ⟨-, h⟩ := guard_eq_ok_iff.1 h
  obtain ⟨ts, htokens, h⟩ := bind_eq_ok_iff.1 h
  obtain ⟨⟨changes, amountIn, amountOut⟩, hwalk, h⟩ := bind_eq_ok_iff.1 h
  rw [Path.tokens, guard_eq_ok_iff, guard_eq_ok_iff] at htokens
  obtain ⟨-, hends, hfollow⟩ := htokens
  obtain ⟨hflow, hsold, hbought⟩ := changesAlong_flow hwalk
  have hcarried := follow_carried hfollow hflow
  cases changes with
  | nil => cases h
  | cons first rest =>
    rw [pure_eq_ok_iff] at h
    subst h
    refine ⟨rfl, hends, (follow_shares hfollow).1, hcarried, hsold, hbought, rfl, rfl, ?_⟩
    show Reserves.mk _ _ = Reserves.mk _ _
    rw [distance_of_add hflow.enters, distance_of_sub hflow.leaves]

/-! ## The two planners -/

/-- Who plans a request: the planner of one pool, or the one of a chain of pools. -/
inductive Router where
  | single
  | cross
deriving DecidableEq, Repr

def Router.plan : Router → List Pool → SwapRequest → Except RouteError Plan
  | .single => Plan.inPool
  | .cross => Plan.through

theorem inPool_along {pools : List Pool} {plan : Plan} (h : Plan.inPool pools q = .ok plan) :
    Plan.along pools q = .ok plan := by
  unfold Plan.inPool at h
  split at h
  · rw [guard_eq_ok_iff, guard_eq_ok_iff] at h
    exact h.2.2
  · cases h

theorem through_along {pools : List Pool} {plan : Plan} (h : Plan.through pools q = .ok plan) :
    Plan.along pools q = .ok plan := by
  unfold Plan.through at h
  split at h
  · cases h
  · exact inPool_along h
  · exact h

theorem Router.plan_along {router : Router} {pools : List Pool} {plan : Plan}
    (h : router.plan pools q = .ok plan) : Plan.along pools q = .ok plan := by
  cases router with
  | single => exact inPool_along h
  | cross => exact through_along h

theorem Router.plan_follows {router : Router} {pools : List Pool} {plan : Plan}
    (h : router.plan pools q = .ok plan) : plan.Follows pools q :=
  along_follows (Router.plan_along h)

end SwapStake
