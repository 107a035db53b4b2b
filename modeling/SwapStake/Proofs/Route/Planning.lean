import SwapStake.Proofs.Route.Flow
/-!
# When a plan is made

A plan needs two different ends, a path that leads from the one to the other through different pools,
and a flow along it that agrees with the amount of the request (`along_eq_ok_iff`). Nothing else is
needed: a walk is refused only where there is no such flow (`changesAlong_eq_ok_iff`). The path alone is
told by `Path.Walk`, which names the token that enters each pool. Both planners agree with the plan along
the path wherever there is one.
-/

namespace SwapStake

namespace Path

/-- The pools lead from one token to another; `entries` are the tokens that enter them. -/
inductive Walk : TokenId → List Pool → List TokenId → TokenId → Prop
  | arrived (t : TokenId) : Walk t [] [] t
  | hop {p : Pool} {pools : List Pool} {entries : List TokenId} {t u d : TokenId}
      (other : p.other? t = some u) (rest : Walk u pools entries d) : Walk t (p :: pools) (t :: entries) d

/-- The token that the pools lead to. -/
def reached? (t : TokenId) (pools : List Pool) : Option TokenId :=
  pools.foldlM (fun t p => p.other? t) t

variable {p : Pool} {pools rest : List Pool} {entries : List TokenId} {t d : TokenId}

theorem walk_nil_iff : Walk t [] entries d ↔ entries = [] ∧ t = d := by
  constructor
  · rintro ⟨⟩
    exact ⟨rfl, rfl⟩
  · rintro ⟨rfl, rfl⟩
    exact .arrived t

theorem walk_cons_iff : Walk t (p :: pools) entries d ↔
    ∃ u later, p.other? t = some u ∧ Walk u pools later d ∧ entries = t :: later := by
  constructor
  · rintro (_ | ⟨other, rest⟩)
    exact ⟨_, _, other, rest, rfl⟩
  · rintro ⟨u, later, other, rest, rfl⟩
    exact .hop other rest

theorem Walk.length (h : Walk t pools entries d) : entries.length = pools.length := by
  induction h with
  | arrived => rfl
  | hop _ _ ih => rw [List.length_cons, List.length_cons, ih]

theorem Walk.zipWith_tokens {α : Type} (f : Pool → TokenId → α) (h : Walk t pools entries d) :
    List.zipWith f pools (entries ++ [d]) = List.zipWith f pools entries := by
  induction h with
  | arrived => rfl
  | hop _ _ ih => rw [List.cons_append, List.zipWith_cons_cons, List.zipWith_cons_cons, ih]

theorem Walk.unique {entries' : List TokenId} {d' : TokenId} (h : Walk t pools entries d)
    (h' : Walk t pools entries' d') : entries' = entries ∧ d' = d := by
  induction h generalizing entries' with
  | arrived =>
    obtain ⟨rfl, rfl⟩ := walk_nil_iff.1 h'
    exact ⟨rfl, rfl⟩
  | hop other _ ih =>
    obtain ⟨u, later, hother, hlater, rfl⟩ := walk_cons_iff.1 h'
    obtain rfl := Option.some.inj (other.symm.trans hother)
    obtain ⟨rfl, rfl⟩ := ih hlater
    exact ⟨rfl, rfl⟩

theorem Walk.ne_nil (h : Walk t pools entries d) (hne : t ≠ d) : pools ≠ [] := by
  rintro rfl
  exact hne (walk_nil_iff.1 h).2

theorem walk_append_iff : Walk t (pools ++ rest) entries d ↔ ∃ m front back,
    Walk t pools front m ∧ Walk m rest back d ∧ entries = front ++ back := by
  constructor
  · intro h
    induction pools generalizing t entries with
    | nil => exact ⟨t, [], entries, .arrived t, h, rfl⟩
    | cons p pools ih =>
      obtain ⟨u, later, hother, hlater, rfl⟩ := walk_cons_iff.1 h
      obtain ⟨m, front, back, hfront, hback, rfl⟩ := ih hlater
      exact ⟨m, t :: front, back, .hop hother hfront, hback, rfl⟩
  · rintro ⟨m, front, back, hfront, hback, rfl⟩
    induction hfront with
    | arrived => exact hback
    | hop other _ ih => exact .hop other (ih hback)

theorem reached?_eq_some_iff : reached? t pools = some d ↔ ∃ entries, Walk t pools entries d := by
  induction pools generalizing t with
  | nil => simp [reached?, walk_nil_iff]
  | cons p pools ih =>
    rw [reached?, List.foldlM_cons, Option.bind_eq_bind, Option.bind_eq_some_iff]
    constructor
    · rintro ⟨u, hother, h⟩
      obtain ⟨entries, hwalk⟩ := ih.1 h
      exact ⟨t :: entries, .hop hother hwalk⟩
    · rintro ⟨entries, h⟩
      obtain ⟨u, later, hother, hlater, -⟩ := walk_cons_iff.1 h
      exact ⟨u, hother, ih.2 ⟨later, hlater⟩⟩

theorem follow_eq_ok_iff {hop : Nat} {used ts : List TokenId} :
    follow d hop used t pools = .ok ts ↔
      ((pools.map Pool.share).Nodup ∧ ∀ share ∈ used, share ∉ pools.map Pool.share) ∧
        ∃ entries, Walk t pools entries d ∧ ts = entries ++ [d] := by
  induction pools generalizing hop used t ts with
  | nil =>
    rw [follow]
    by_cases ht : t = d
    · simp [ht, walk_nil_iff, eq_comm]
    · simp [ht, walk_nil_iff]
  | cons p pools ih =>
    rw [follow_cons_eq_ok_iff, List.map_cons, List.nodup_cons]
    constructor
    · rintro ⟨hnew, u, later, hother, hlater, rfl⟩
      obtain ⟨⟨hnodup, hused⟩, entries, hwalk, rfl⟩ := ih.1 hlater
      obtain ⟨hp, hused⟩ := List.forall_mem_cons.1 hused
      refine ⟨⟨⟨hp, hnodup⟩, fun share hmem => ?_⟩, t :: entries, .hop hother hwalk, rfl⟩
      have hne : share ≠ p.share := fun h => hnew (h ▸ hmem)
      simpa [hne] using hused share hmem
    · rintro ⟨⟨⟨hp, hnodup⟩, hused⟩, entries, hwalk, rfl⟩
      obtain ⟨u, later, hother, hlater, rfl⟩ := walk_cons_iff.1 hwalk
      refine ⟨fun hmem => hused _ hmem List.mem_cons_self, u, later ++ [d], hother, ?_, rfl⟩
      refine ih.2 ⟨⟨hnodup, List.forall_mem_cons.2 ⟨hp, fun share hmem => ?_⟩⟩, later, hlater, rfl⟩
      exact fun h => hused share hmem (List.mem_cons_of_mem _ h)

theorem tokens_eq_ok_iff {ts : List TokenId} : tokens pools t d = .ok ts ↔
    pools ≠ [] ∧ t ≠ d ∧ (pools.map Pool.share).Nodup ∧ ∃ entries, Walk t pools entries d ∧ ts = entries ++ [d] := by
  rw [tokens, guard_eq_ok_iff, guard_eq_ok_iff, follow_eq_ok_iff]
  simp

end Path

variable {q : SwapRequest} {pools : List Pool} {plan : Plan}

/-! ## Flows -/

/-- The amounts at the two ends agree with the one that the request fixes. -/
structure SwapRequest.Fixes (q : SwapRequest) (amountIn amountOut : UInt64) : Prop where
  sold : q.side = .sell → amountIn = q.amount
  bought : q.side = .buy → amountOut = q.amount

theorem SwapRequest.Priced.ne_zero {r : Reserves} {paid received : UInt64} (h : q.Priced r paid received) :
    paid ≠ 0 ∧ received ≠ 0 := by
  unfold SwapRequest.Priced at h
  cases hside : q.side with
  | sell =>
    rw [hside] at h
    obtain ⟨hsale, hreceived⟩ := h
    refine ⟨?_, hreceived⟩
    rintro rfl
    obtain ⟨-, -, hzero⟩ := Reserves.saleProceeds_eq_ok_iff.1 hsale
    exact hreceived (UInt64.toNat_inj.1 (by simpa [Reserves.saleQuote] using hzero))
  | buy =>
    rw [hside] at h
    obtain ⟨hcost, hpaid⟩ := h
    refine ⟨hpaid, ?_⟩
    rintro rfl
    obtain ⟨-, -, hzero⟩ := Reserves.buyCost_eq_ok_iff.1 hcost
    exact hpaid (UInt64.toNat_inj.1 (by simpa [Reserves.purchaseQuote] using hzero))

theorem Flow.input_ne_zero {walk : List Reserves} {c : HopChange} {changes : List HopChange} {x z : UInt64}
    (h : Flow q walk (c :: changes) x z) : x ≠ 0 := by
  cases h with
  | hop _ priced _ _ => exact priced.ne_zero.1

theorem Flow.output_ne_zero {walk : List Reserves} {changes : List HopChange} {x z : UInt64}
    (h : Flow q walk changes x z) (hx : x ≠ 0) : z ≠ 0 := by
  induction h with
  | done => exact hx
  | hop _ priced _ _ ih => exact ih priced.ne_zero.2

theorem Flow.length {walk : List Reserves} {changes : List HopChange} {x z : UInt64}
    (h : Flow q walk changes x z) : changes.length = walk.length := by
  induction h with
  | done => rfl
  | hop _ _ _ _ ih => rw [List.length_cons, List.length_cons, ih]

theorem HopChange.of_eq_ok_iff {r : Reserves} {paid received : UInt64} {c : HopChange}
    (hle : received.toNat ≤ r.reserve2.toNat) :
    HopChange.of r paid received = .ok c ↔ c.before = r ∧ c.Moves paid received := by
  refine ⟨fun h => HopChange.of_moves h hle, ?_⟩
  rintro ⟨rfl, henters, hleaves⟩
  refine bind_eq_ok_iff.2 ⟨c.after.reserve1, ?_, ?_⟩
  · rwa [orPoolError_eq_ok_iff, Word64.add?_eq_some_iff]
  · rw [← Word64.eq_sub_of_add hleaves]
    rfl

theorem HopChange.exists_of {r : Reserves} {paid : UInt64} (h : r.reserve1.toNat + paid.toNat < 2 ^ 64)
    (received : UInt64) : ∃ c, HopChange.of r paid received = .ok c := by
  cases hadd : Word64.add? r.reserve1 paid with
  | none =>
    rw [Word64.add?_eq_none_iff] at hadd
    omega
  | some reserve1 => exact ⟨_, by rw [HopChange.of, hadd]; rfl⟩

theorem sellAlong_cons {interest : UInt32} {paid received : UInt64} {r : Reserves} (walk : List Reserves)
    (hsale : r.saleProceeds paid interest = .ok received) :
    Plan.sellAlong interest paid (r :: walk) =
      if received = 0 then .error .zeroOutput
      else onRoute (HopChange.of r paid received) >>= fun change =>
        Plan.sellAlong interest received walk >>= fun (later, output) => .ok (change :: later, output) := by
  rw [Plan.sellAlong, hsale]
  rfl

theorem Flow.sellAlong {walk : List Reserves} {changes : List HopChange} {x z : UInt64}
    (hside : q.side = .sell) (h : Flow q walk changes x z) :
    Plan.sellAlong q.interest x walk = .ok (changes, z) := by
  induction h with
  | done => rfl
  | hop before priced moves _ ih =>
    have hchange := (HopChange.of_eq_ok_iff priced.le_reserve).2 ⟨before, moves⟩
    rw [SwapRequest.Priced, hside] at priced
    rw [sellAlong_cons _ priced.1, if_neg priced.2, hchange, ih]
    rfl

theorem buyAlong_cons {interest : UInt32} {wanted needed cost : UInt64} {r : Reserves} {walk : List Reserves}
    {later : List HopChange} (hlater : Plan.buyAlong interest wanted walk = .ok (later, needed))
    (hcost : r.inverted.buyCost needed interest = .ok cost) :
    Plan.buyAlong interest wanted (r :: walk) =
      if cost = 0 then .error .zeroOutput
      else (onRoute (HopChange.of r cost needed)).map fun change => (change :: later, cost) := by
  rw [Plan.buyAlong, hlater]
  show (onRoute _ >>= _) = _
  rw [hcost]
  rfl

theorem Flow.buyAlong {walk : List Reserves} {changes : List HopChange} {x z : UInt64}
    (hside : q.side = .buy) (h : Flow q walk changes x z) :
    Plan.buyAlong q.interest z walk = .ok (changes, x) := by
  induction h with
  | done => rfl
  | hop before priced moves _ ih =>
    have hchange := (HopChange.of_eq_ok_iff priced.le_reserve).2 ⟨before, moves⟩
    rw [SwapRequest.Priced, hside] at priced
    rw [buyAlong_cons ih priced.1, if_neg priced.2, hchange]
    rfl

/-- **The walks of a request are the flows that agree with it.** -/
theorem changesAlong_eq_ok_iff {walk : List Reserves} {changes : List HopChange} {amountIn amountOut : UInt64} :
    Plan.changesAlong q walk = .ok (changes, amountIn, amountOut) ↔
      Flow q walk changes amountIn amountOut ∧ q.Fixes amountIn amountOut := by
  constructor
  · intro h
    obtain ⟨hflow, hsold, hbought⟩ := changesAlong_flow h
    exact ⟨hflow, hsold, hbought⟩
  · rintro ⟨hflow, hsold, hbought⟩
    unfold Plan.changesAlong
    cases hside : q.side with
    | sell =>
      show Except.map _ _ = _
      rw [← hsold hside, hflow.sellAlong hside]
      rfl
    | buy =>
      show Except.map _ _ = _
      rw [← hbought hside, hflow.buyAlong hside]
      rfl

/-! ## Plans -/

namespace Plan

/-- The plan that the changes along a path make up. -/
def assemble (request : SwapRequest) (entries : List (Pool × TokenId)) (first : HopChange)
    (rest : List HopChange) (amountIn amountOut : UInt64) : Plan where
  request
  swaps := List.zipWith (fun e c => c.toSwap e.1 e.2) entries (first :: rest)
  summary :=
    { token1 := request.source
      token2 := request.destination
      before := ⟨first.before.reserve1, (rest.getLastD first).before.reserve2⟩
      after := ⟨first.after.reserve1, (rest.getLastD first).after.reserve2⟩ }
  amountIn
  amountOut

/-- The reserves met on a path, each from the side that it is entered from. -/
def facings (pools : List Pool) (entries : List TokenId) : List Reserves :=
  List.zipWith Pool.facing pools entries

end Plan

theorem Path.Walk.length_zip {entries : List TokenId} {t d : TokenId} (h : Path.Walk t pools entries d) :
    (pools.zip entries).length = pools.length := by
  rw [List.length_zip, h.length, Nat.min_self]

theorem Flow.length_of_walk {entries : List TokenId} {t d : TokenId} {changes : List HopChange} {x z : UInt64}
    (h : Flow q (Plan.facings pools entries) changes x z) (hwalk : Path.Walk t pools entries d) :
    changes.length = pools.length := by
  rw [h.length, Plan.facings, List.length_zipWith, hwalk.length, Nat.min_self]

namespace Plan

theorem along_of_walk {entries : List TokenId} (hamount : q.amount ≠ 0) (hends : q.source ≠ q.destination)
    (hshares : (pools.map Pool.share).Nodup) (hwalk : Path.Walk q.source pools entries q.destination) :
    along pools q = changesAlong q (facings pools entries) >>= fun
      | ([], _, _) => .error .emptyPath
      | (first :: rest, amountIn, amountOut) =>
        .ok (assemble q (pools.zip entries) first rest amountIn amountOut) := by
  have htokens := Path.tokens_eq_ok_iff.2 ⟨hwalk.ne_nil hends, hends, hshares, entries, hwalk, rfl⟩
  have hfacings : List.zipWith Pool.facing pools (entries ++ [q.destination]) = facings pools entries :=
    hwalk.zipWith_tokens Pool.facing
  have hzip : pools.zip (entries ++ [q.destination]) = pools.zip entries :=
    hwalk.zipWith_tokens Prod.mk
  rw [along, if_neg hamount, htokens]
  show (changesAlong q (List.zipWith Pool.facing pools (entries ++ [q.destination])) >>= _) = _
  rw [hfacings, hzip]
  rfl

/-- How a plan along a path comes about. -/
structure Made (pools : List Pool) (q : SwapRequest) (entries : List TokenId) (first : HopChange)
    (rest : List HopChange) (plan : Plan) : Prop where
  ends : q.source ≠ q.destination
  shares : (pools.map Pool.share).Nodup
  walk : Path.Walk q.source pools entries q.destination
  flow : Flow q (facings pools entries) (first :: rest) plan.amountIn plan.amountOut
  fixes : q.Fixes plan.amountIn plan.amountOut
  assembled : plan = assemble q (pools.zip entries) first rest plan.amountIn plan.amountOut

theorem Made.amount_ne_zero {entries : List TokenId} {first : HopChange} {rest : List HopChange}
    (h : Made pools q entries first rest plan) : q.amount ≠ 0 := by
  cases hside : q.side with
  | sell => exact h.fixes.sold hside ▸ h.flow.input_ne_zero
  | buy => exact h.fixes.bought hside ▸ h.flow.output_ne_zero h.flow.input_ne_zero

/-- **When there is a plan along a path**, and which one. -/
theorem along_eq_ok_iff : along pools q = .ok plan ↔ ∃ entries first rest, Made pools q entries first rest plan := by
  constructor
  · intro h
    have hunfolded := h
    rw [along, guard_eq_ok_iff] at hunfolded
    obtain ⟨hamount, hunfolded⟩ := hunfolded
    obtain ⟨ts, htokens, -⟩ := bind_eq_ok_iff.1 hunfolded
    obtain ⟨-, hends, hshares, entries, hwalk, -⟩ := Path.tokens_eq_ok_iff.1 htokens
    rw [along_of_walk hamount hends hshares hwalk] at h
    obtain ⟨⟨changes, amountIn, amountOut⟩, hchanges, h⟩ := bind_eq_ok_iff.1 h
    obtain ⟨hflow, hfixes⟩ := changesAlong_eq_ok_iff.1 hchanges
    cases changes with
    | nil => cases h
    | cons first rest =>
      obtain rfl := Except.ok.inj h
      exact ⟨entries, first, rest, hends, hshares, hwalk, hflow, hfixes, rfl⟩
  · rintro ⟨entries, first, rest, made⟩
    rw [along_of_walk made.amount_ne_zero made.ends made.shares made.walk,
      changesAlong_eq_ok_iff.2 ⟨made.flow, made.fixes⟩]
    exact congrArg Except.ok made.assembled.symm

end Plan

/-! ## The two planners -/

theorem Pool.contains_of_other? {p : Pool} {t u : TokenId} (h : p.other? t = some u) :
    p.contains t ∧ p.contains u := by
  rw [other?] at h
  split at h
  · simp_all [contains]
  · split at h
    · simp_all [contains]
    · cases h

theorem Pool.other?_symm {p : Pool} {t u : TokenId} (h : p.other? t = some u) (hne : t ≠ u) : p.other? u = some t := by
  rw [other?] at h ⊢
  split at h
  · rename_i hfirst
    obtain rfl := Option.some.inj h
    rw [if_neg (hfirst ▸ hne.symm), if_pos rfl, hfirst]
  · split at h
    · rename_i hsecond
      obtain rfl := Option.some.inj h
      rw [if_pos rfl, hsecond]
    · cases h

theorem inPool_of_walk {p : Pool} {entries : List TokenId} (h : Path.Walk q.source [p] entries q.destination) :
    Plan.inPool [p] q = Plan.along [p] q := by
  obtain ⟨u, later, hother, hlater, -⟩ := Path.walk_cons_iff.1 h
  obtain ⟨-, rfl⟩ := Path.walk_nil_iff.1 hlater
  obtain ⟨hsource, hdestination⟩ := Pool.contains_of_other? hother
  rw [Plan.inPool, if_neg (not_not.2 hsource), if_neg (not_not.2 hdestination)]

theorem through_of_walk {entries : List TokenId} (hends : q.source ≠ q.destination)
    (h : Path.Walk q.source pools entries q.destination) : Plan.through pools q = Plan.along pools q := by
  match pools, h with
  | [], h => exact absurd rfl (h.ne_nil hends)
  | [_], h => exact inPool_of_walk h
  | _ :: _ :: _, _ => rfl

theorem through_eq_ok_iff : Plan.through pools q = .ok plan ↔ Plan.along pools q = .ok plan := by
  refine ⟨through_along, fun h => ?_⟩
  obtain ⟨entries, -, -, hends, -, hwalk, -⟩ := Plan.along_eq_ok_iff.1 h
  rw [through_of_walk hends hwalk, h]

theorem Router.plan_eq_along {router : Router} (q' : SwapRequest) (h : router.plan pools q = .ok plan)
    (hsource : q'.source = q.source) (hdestination : q'.destination = q.destination) :
    router.plan pools q' = Plan.along pools q' := by
  obtain ⟨entries, -, -, hends, -, hwalk, -⟩ := Plan.along_eq_ok_iff.1 (Router.plan_along h)
  rw [← hsource, ← hdestination] at hends hwalk
  cases router with
  | single =>
    match pools, h with
    | [_], _ => exact inPool_of_walk hwalk
  | cross => exact through_of_walk hends hwalk

/-! ## One pool -/

theorem Router.plan_hop {router : Router} {p : Pool} (h : router.plan [p] q = .ok plan) : ∃ s, plan.swaps = [s] ∧
    s.Moves p q.source q.destination plan.amountIn plan.amountOut ∧
      q.Priced (p.facing q.source) plan.amountIn plan.amountOut := by
  have hcarried := (Router.plan_follows h).carried
  generalize plan.swaps = swaps at hcarried
  cases hcarried with
  | hop moves priced rest =>
    cases rest
    exact ⟨_, rfl, moves, priced⟩

theorem Router.plan_of_hop (router : Router) {p : Pool} (hends : q.source ≠ q.destination)
    (hother : p.other? q.source = some q.destination) {x y : UInt64} (hpriced : q.Priced (p.facing q.source) x y)
    (hroom : (p.facing q.source).reserve1.toNat + x.toNat < 2 ^ 64) (hfixes : q.Fixes x y) :
    ∃ plan, router.plan [p] q = .ok plan ∧ plan.amountIn = x ∧ plan.amountOut = y := by
  have hwalk : Path.Walk q.source [p] [q.source] q.destination := .hop hother (.arrived _)
  obtain ⟨change, hchange⟩ := HopChange.exists_of hroom y
  obtain ⟨hbefore, hmoves⟩ := HopChange.of_moves hchange hpriced.le_reserve
  have hflow : Flow q (Plan.facings [p] [q.source]) [change] x y := .hop hbefore hpriced hmoves (.done y)
  have hplan : Plan.along [p] q = .ok (.assemble q ([p].zip [q.source]) change [] x y) :=
    Plan.along_eq_ok_iff.2 ⟨_, change, [], hends, by simp, hwalk, hflow, hfixes, rfl⟩
  refine ⟨.assemble q ([p].zip [q.source]) change [] x y, ?_, rfl, rfl⟩
  cases router with
  | single => exact (inPool_of_walk hwalk).trans hplan
  | cross => exact (through_of_walk hends hwalk).trans hplan

end SwapStake
