import SwapStake.Proofs.Route.Planning
/-!
# Routes put together

A plan over two paths, one after the other, is made of a plan over each: what the first lets out is what
the second takes in. A flow is cut at any place (`flow_append_iff`), in the same way for sales and
purchases; they differ only in which of the two plans has to be made first, since the amount at the cut
is known from there (`through_append_iff`).
-/

namespace SwapStake

variable {q : SwapRequest}

/-! ## Flows -/

theorem Flow.of_same {q' : SwapRequest} {walk : List Reserves} {changes : List HopChange} {x z : UInt64}
    (h : Flow q walk changes x z) (hside : q'.side = q.side) (hinterest : q'.interest = q.interest) :
    Flow q' walk changes x z := by
  induction h with
  | done x => exact .done x
  | hop before priced moves _ ih =>
    refine .hop before ?_ moves ih
    rwa [SwapRequest.Priced, hside, hinterest]

theorem flow_append_iff {front back : List Reserves} {changes : List HopChange} {x z : UInt64} :
    Flow q (front ++ back) changes x z ↔ ∃ y before after, Flow q front before x y ∧ Flow q back after y z ∧
      changes = before ++ after := by
  constructor
  · intro h
    induction front generalizing changes x with
    | nil => exact ⟨x, [], changes, .done x, h, rfl⟩
    | cons r front ih =>
      cases h with
      | @hop _ c _ _ _ _ _ hbefore priced moves rest =>
        obtain ⟨y, before, after, hfront, hback, rfl⟩ := ih rest
        exact ⟨y, c :: before, after, .hop hbefore priced moves hfront, hback, rfl⟩
  · rintro ⟨y, before, after, hfront, hback, rfl⟩
    induction hfront with
    | done => exact hback
    | hop before priced moves _ ih => exact .hop before priced moves (ih hback)

/-! ## Plans -/

/-- Two plans as one: the source side of the first, the destination side of the second. -/
def Plan.join (request : SwapRequest) (first second : Plan) : Plan where
  request
  swaps := first.swaps ++ second.swaps
  summary :=
    { token1 := first.summary.token1
      token2 := second.summary.token2
      before := ⟨first.summary.before.reserve1, second.summary.before.reserve2⟩
      after := ⟨first.summary.after.reserve1, second.summary.after.reserve2⟩ }
  amountIn := first.amountIn
  amountOut := second.amountOut

/-- The part of a request before a token on the way, where `amount` of it arrives. -/
def SwapRequest.upTo (q : SwapRequest) (mid : TokenId) (amount : UInt64) : SwapRequest :=
  { q with
    destination := mid
    amount := match q.side with
      | .sell => q.amount
      | .buy => amount }

/-- The part of a request after a token on the way, where `amount` of it sets out. -/
def SwapRequest.beyond (q : SwapRequest) (mid : TokenId) (amount : UInt64) : SwapRequest :=
  { q with
    source := mid
    amount := match q.side with
      | .sell => amount
      | .buy => q.amount }

theorem SwapRequest.fixes_iff_parts (q : SwapRequest) (mid : TokenId) (y : UInt64) {x z : UInt64} :
    q.Fixes x z ↔ (q.upTo mid y).Fixes x y ∧ (q.beyond mid y).Fixes y z := by
  obtain ⟨source, destination, amount, interest, _ | _⟩ := q
  · constructor
    · intro h
      exact ⟨⟨nofun, fun _ => rfl⟩, nofun, fun _ => h.bought rfl⟩
    · intro h
      exact ⟨nofun, fun _ => h.2.bought rfl⟩
  · constructor
    · intro h
      exact ⟨⟨fun _ => h.sold rfl, nofun⟩, fun _ => rfl, nofun⟩
    · intro h
      exact ⟨fun _ => h.1.sold rfl, nofun⟩

theorem facings_append {pools pools' : List Pool} {entries entries' : List TokenId} {t d : TokenId}
    (h : Path.Walk t pools entries d) : Plan.facings (pools ++ pools') (entries ++ entries') =
      Plan.facings pools entries ++ Plan.facings pools' entries' :=
  List.zipWith_append h.length.symm

theorem assemble_append {entries entries' : List (Pool × TokenId)} {first first' : HopChange}
    {rest rest' : List HopChange} {mid : TokenId} {x y z : UInt64} (h : entries.length = (first :: rest).length) :
    Plan.assemble q (entries ++ entries') first (rest ++ first' :: rest') x z =
      Plan.join q (Plan.assemble (q.upTo mid y) entries first rest x y)
        (Plan.assemble (q.beyond mid y) entries' first' rest' y z) := by
  have hswaps : List.zipWith (fun e c => c.toSwap e.1 e.2) (entries ++ entries') (first :: rest ++ first' :: rest') =
      List.zipWith (fun e c => HopChange.toSwap c e.1 e.2) entries (first :: rest) ++
        List.zipWith (fun e c => c.toSwap e.1 e.2) entries' (first' :: rest') :=
    List.zipWith_append h
  have hlast : (rest ++ first' :: rest').getLastD first = rest'.getLastD first' := by
    simp [List.getLastD_eq_getLast?, List.getLast?_cons]
  rw [Plan.assemble, hlast, ← List.cons_append, hswaps]
  rfl

theorem Flow.changes_of_walk {pools : List Pool} {entries : List TokenId} {t d : TokenId}
    {changes : List HopChange} {x z : UInt64} (h : Flow q (Plan.facings pools entries) changes x z)
    (hwalk : Path.Walk t pools entries d) (hne : t ≠ d) :
    ∃ first rest, changes = first :: rest ∧ (first :: rest).length = pools.length := by
  have hlength := h.length_of_walk hwalk
  cases changes with
  | nil => exact absurd (List.eq_nil_of_length_eq_zero hlength.symm) (hwalk.ne_nil hne)
  | cons first rest => exact ⟨first, rest, rfl, hlength⟩

variable {front back : List Pool} {mid : TokenId} {plan : Plan}

theorem Plan.Made.cut {entries : List TokenId} {first : HopChange} {rest : List HopChange}
    (made : Plan.Made (front ++ back) q entries first rest plan) (hsource : q.source ≠ mid)
    (hdestination : mid ≠ q.destination) (reached : Path.reached? q.source front = some mid) :
    ∃ y one two, Plan.along front (q.upTo mid y) = .ok one ∧ Plan.along back (q.beyond mid y) = .ok two ∧
      one.amountOut = y ∧ two.amountIn = y ∧ plan = .join q one two := by
  obtain ⟨hends, hshares, hwalk, hflow, hfixes, hplan⟩ := made
  rw [List.map_append, List.nodup_append] at hshares
  obtain ⟨m, entered, entered', hfront, hback, rfl⟩ := Path.walk_append_iff.1 hwalk
  obtain ⟨_, hreached⟩ := Path.reached?_eq_some_iff.1 reached
  obtain ⟨-, rfl⟩ := hreached.unique hfront
  rw [facings_append hfront] at hflow
  obtain ⟨y, changes, changes', hbefore, hafter, hchanges⟩ := flow_append_iff.1 hflow
  obtain ⟨first, rest, rfl, hlength⟩ := hbefore.changes_of_walk hfront hsource
  rw [← hfront.length_zip] at hlength
  obtain ⟨first', rest', rfl, -⟩ := hafter.changes_of_walk hback hdestination
  obtain ⟨rfl, rfl⟩ := List.cons.inj hchanges
  obtain ⟨hfixes, hfixes'⟩ := (q.fixes_iff_parts m y).1 hfixes
  refine ⟨y, .assemble (q.upTo m y) (front.zip entered) first rest plan.amountIn y,
    .assemble (q.beyond m y) (back.zip entered') first' rest' y plan.amountOut, ?_, ?_, rfl, rfl, ?_⟩
  · exact Plan.along_eq_ok_iff.2 ⟨entered, first, rest, hsource, hshares.1, hfront,
      hbefore.of_same rfl rfl, hfixes, rfl⟩
  · exact Plan.along_eq_ok_iff.2 ⟨entered', first', rest', hdestination, hshares.2.1, hback,
      hafter.of_same rfl rfl, hfixes', rfl⟩
  · rw [← assemble_append hlength.symm, ← List.zip_append hfront.length.symm]
    exact hplan

theorem join_eq_ok {y : UInt64} {one two : Plan} (distinct : ((front ++ back).map Pool.share).Nodup)
    (hends : q.source ≠ q.destination) (hone : Plan.along front (q.upTo mid y) = .ok one)
    (htwo : Plan.along back (q.beyond mid y) = .ok two) (hout : one.amountOut = y) (hin : two.amountIn = y) :
    Plan.along (front ++ back) q = .ok (.join q one two) := by
  obtain ⟨entered, first, rest, hsource, -, hfront, hbefore, hfixes, hassembled⟩ := Plan.along_eq_ok_iff.1 hone
  obtain ⟨entered', first', rest', hdestination, -, hback, hafter, hfixes', hassembled'⟩ :=
    Plan.along_eq_ok_iff.1 htwo
  rw [hout] at hbefore hfixes hassembled
  rw [hin] at hafter hfixes' hassembled'
  have hlength := hbefore.length_of_walk hfront
  rw [← hfront.length_zip] at hlength
  refine Plan.along_eq_ok_iff.2 ⟨entered ++ entered', first, rest ++ first' :: rest', hends, distinct,
    Path.walk_append_iff.2 ⟨mid, entered, entered', hfront, hback, rfl⟩, ?_, ?_, ?_⟩
  · rw [facings_append hfront]
    exact flow_append_iff.2 ⟨y, first :: rest, first' :: rest', hbefore.of_same rfl rfl, hafter.of_same rfl rfl, rfl⟩
  · exact (q.fixes_iff_parts mid y).2 ⟨hfixes, hfixes'⟩
  · rw [List.zip_append hfront.length.symm]
    calc Plan.join q one two
        = .join q (.assemble (q.upTo mid y) (front.zip entered) first rest one.amountIn y)
            (.assemble (q.beyond mid y) (back.zip entered') first' rest' y two.amountOut) := by
          rw [← hassembled, ← hassembled']
      _ = .assemble q (front.zip entered ++ back.zip entered') first (rest ++ first' :: rest')
            one.amountIn two.amountOut := (assemble_append hlength.symm).symm

/-- **A plan over two paths is a plan over each of them**, with one amount where they meet. -/
theorem through_append_iff (distinct : ((front ++ back).map Pool.share).Nodup) (hends : q.source ≠ q.destination)
    (hsource : q.source ≠ mid) (hdestination : mid ≠ q.destination)
    (reached : Path.reached? q.source front = some mid) :
    Plan.through (front ++ back) q = .ok plan ↔ ∃ y one two,
      Plan.through front (q.upTo mid y) = .ok one ∧ Plan.through back (q.beyond mid y) = .ok two ∧
        one.amountOut = y ∧ two.amountIn = y ∧ plan = .join q one two := by
  simp only [through_eq_ok_iff]
  constructor
  · intro h
    obtain ⟨entries, first, rest, made⟩ := Plan.along_eq_ok_iff.1 h
    exact made.cut hsource hdestination reached
  · rintro ⟨y, one, two, hone, htwo, hout, hin, rfl⟩
    exact join_eq_ok distinct hends hone htwo hout hin

/-- **Routing is compositional.** A sale over two paths that meet in a token succeeds exactly if the sale
over the first succeeds and that of its output over the second; a purchase, if the purchase over the
second succeeds and that of its cost over the first. Its plan is then the join of the two. -/
theorem routing_composes {source destination : TokenId} (distinct : ((front ++ back).map Pool.share).Nodup)
    (ends : source ≠ destination) (fromSource : source ≠ mid) (toDestination : mid ≠ destination)
    (reached : Path.reached? source front = some mid) (amount : UInt64) (interest : UInt32) (plan : Plan) :
    (Plan.through (front ++ back) ⟨source, destination, amount, interest, .sell⟩ = .ok plan ↔
      ∃ one two, Plan.through front ⟨source, mid, amount, interest, .sell⟩ = .ok one ∧
        Plan.through back ⟨mid, destination, one.amountOut, interest, .sell⟩ = .ok two ∧
        plan = .join ⟨source, destination, amount, interest, .sell⟩ one two) ∧
    (Plan.through (front ++ back) ⟨source, destination, amount, interest, .buy⟩ = .ok plan ↔
      ∃ two one, Plan.through back ⟨mid, destination, amount, interest, .buy⟩ = .ok two ∧
        Plan.through front ⟨source, mid, two.amountIn, interest, .buy⟩ = .ok one ∧
        plan = .join ⟨source, destination, amount, interest, .buy⟩ one two) := by
  constructor
  · rw [through_append_iff distinct ends fromSource toDestination reached]
    constructor
    · rintro ⟨_, one, two, hone, htwo, rfl, -, hplan⟩
      exact ⟨one, two, hone, htwo, hplan⟩
    · rintro ⟨one, two, hone, htwo, hplan⟩
      exact ⟨one.amountOut, one, two, hone, htwo, rfl, (along_follows (through_along htwo)).sold rfl, hplan⟩
  · rw [through_append_iff distinct ends fromSource toDestination reached]
    constructor
    · rintro ⟨_, one, two, hone, htwo, -, rfl, hplan⟩
      exact ⟨two, one, htwo, hone, hplan⟩
    · rintro ⟨two, one, htwo, hone, hplan⟩
      exact ⟨two.amountIn, one, two, hone, htwo, (along_follows (through_along hone)).bought rfl, rfl, hplan⟩

/-- From token 1 to token 2, against the order of the pool. -/
def trialFront : List Pool :=
  [⟨⟨10⟩, ⟨2⟩, ⟨1⟩, 100, ⟨1000, 4000⟩⟩]

/-- From token 2 to token 4, by token 1 again and token 3. -/
def trialBack : List Pool :=
  [⟨⟨11⟩, ⟨2⟩, ⟨1⟩, 100, ⟨900, 800⟩⟩, ⟨⟨12⟩, ⟨1⟩, ⟨3⟩, 100, ⟨700, 600⟩⟩, ⟨⟨13⟩, ⟨4⟩, ⟨3⟩, 100, ⟨500, 400⟩⟩]

theorem routing_composes_trial :
    ((trialFront ++ trialBack).map Pool.share).Nodup ∧ Path.reached? ⟨1⟩ trialFront = some ⟨2⟩ ∧
      (∃ one two, Plan.through trialFront ⟨⟨1⟩, ⟨2⟩, 500, 3, .sell⟩ = .ok one ∧
        Plan.through trialBack ⟨⟨2⟩, ⟨4⟩, one.amountOut, 3, .sell⟩ = .ok two ∧ two.amountOut = 70) ∧
      ∃ two one, Plan.through trialBack ⟨⟨2⟩, ⟨4⟩, 20, 3, .buy⟩ = .ok two ∧
        Plan.through trialFront ⟨⟨1⟩, ⟨2⟩, two.amountIn, 3, .buy⟩ = .ok one ∧ one.amountIn = 85 := by
  have hdistinct : ((trialFront ++ trialBack).map Pool.share).Nodup := by decide
  have hreached : Path.reached? ⟨1⟩ trialFront = some ⟨2⟩ := by decide
  obtain ⟨sale, hsale, hout⟩ := map_eq_ok_iff.1 (show (Plan.through (trialFront ++ trialBack)
    ⟨⟨1⟩, ⟨4⟩, 500, 3, .sell⟩).map Plan.amountOut = .ok 70 by decide +kernel)
  obtain ⟨purchase, hpurchase, hin⟩ := map_eq_ok_iff.1 (show (Plan.through (trialFront ++ trialBack)
    ⟨⟨1⟩, ⟨4⟩, 20, 3, .buy⟩).map Plan.amountIn = .ok 85 by decide +kernel)
  obtain ⟨one, two, hone, htwo, rfl⟩ :=
    (routing_composes hdistinct (by decide) (by decide) (by decide) hreached 500 3 sale).1.1 hsale
  obtain ⟨last, first, hlast, hfirst, rfl⟩ :=
    (routing_composes hdistinct (by decide) (by decide) (by decide) hreached 20 3 purchase).2.1 hpurchase
  exact ⟨hdistinct, hreached, ⟨one, two, hone, htwo, hout⟩, last, first, hlast, hfirst, hin⟩

end SwapStake
