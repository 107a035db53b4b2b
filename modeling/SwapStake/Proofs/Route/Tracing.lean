import Mathlib.Data.List.Induction
import Mathlib.Data.List.Nodup
import SwapStake.Proofs.Route.Planning
/-!
# Which paths are traced

A path is traced for a source and a destination if it can be walked from the one to the other through
different pools, and the tokens that are met are told by their places: each pool has the token at its own
place and leads to the one after it (`Path.Traced`). Any other path is refused for the first thing that is
wrong with it: all pools before that one are passed (`Path.Refusal`). The walk is told for the part that
is passed (`Path.Walk.follow_error_iff`), and every path that is not passed to its end stops somewhere
(`Path.passes_or_stops`), so the two cases leave nothing out (`Path.tokens_exact`).
-/

namespace SwapStake

/-- A pool leads from each of its tokens to the other one. -/
def Pool.Joins (p : Pool) (t u : TokenId) : Prop :=
  (t = p.token1 ∧ u = p.token2) ∨ (t = p.token2 ∧ u = p.token1)

theorem Pool.other?_eq_some_iff {p : Pool} {t u : TokenId} : p.other? t = some u ↔ p.Joins t u := by
  rw [other?, Joins]
  by_cases hfirst : t = p.token1
  · rw [if_pos hfirst, Option.some_inj]
    constructor
    · rintro rfl
      exact .inl ⟨hfirst, rfl⟩
    · rintro (⟨-, rfl⟩ | ⟨hsecond, rfl⟩)
      · rfl
      · exact hsecond.symm.trans hfirst
  · rw [if_neg hfirst]
    by_cases hsecond : t = p.token2
    · rw [if_pos hsecond, Option.some_inj, or_iff_right fun h => hfirst h.1, and_iff_right hsecond]
      exact eq_comm
    · rw [if_neg hsecond]
      simp [hfirst, hsecond]

theorem Pool.other?_eq_none_iff {p : Pool} {t : TokenId} : p.other? t = none ↔ ¬ p.contains t := by
  rw [other?, contains, decide_eq_true_eq, eq_comm (a := p.token1), eq_comm (a := p.token2)]
  by_cases hfirst : t = p.token1
  · simp [hfirst]
  · rw [if_neg hfirst]
    by_cases hsecond : t = p.token2
    · rw [if_pos hsecond]
      simp [hsecond]
    · simp [hfirst, hsecond]

namespace Path

variable {p : Pool} {pools front rest : List Pool} {entries ts : List TokenId} {source destination t u d m : TokenId}

/-! ## Tokens by their places -/

/-- The tokens that are met from a source to a destination: one before the first pool and one after each. -/
structure Traced (pools : List Pool) (source destination : TokenId) (ts : List TokenId) : Prop where
  length : ts.length = pools.length + 1
  starts : ts[0]? = some source
  arrives : ts[pools.length]? = some destination
  hops : ∀ (k : Nat) (p : Pool), pools[k]? = some p → ∃ t u, ts[k]? = some t ∧ ts[k + 1]? = some u ∧ p.Joins t u

theorem traced_nil_iff : Traced [] t d ts ↔ ts = [t] ∧ t = d := by
  constructor
  · rintro ⟨hlength, hstarts, harrives, -⟩
    obtain ⟨t', rfl⟩ := List.length_eq_one_iff.1 hlength
    obtain rfl := Option.some.inj hstarts
    exact ⟨rfl, Option.some.inj harrives⟩
  · rintro ⟨rfl, rfl⟩
    exact ⟨rfl, rfl, rfl, nofun⟩

theorem traced_cons_iff : Traced (p :: pools) t d ts ↔
    ∃ u later, p.Joins t u ∧ Traced pools u d later ∧ ts = t :: later := by
  constructor
  · rintro ⟨hlength, hstarts, harrives, hhops⟩
    cases ts with
    | nil => cases hstarts
    | cons t' later =>
      obtain rfl := Option.some.inj hstarts
      obtain ⟨t', u, ht, hu, hjoins⟩ := hhops 0 p rfl
      obtain rfl := Option.some.inj ht
      refine ⟨u, later, hjoins, ⟨Nat.succ.inj hlength, hu, harrives, fun k q hq => ?_⟩, rfl⟩
      exact hhops (k + 1) q hq
  · rintro ⟨u, later, hjoins, ⟨hlength, hstarts, harrives, hhops⟩, rfl⟩
    refine ⟨congrArg Nat.succ hlength, rfl, harrives, fun k q hq => ?_⟩
    cases k with
    | zero =>
      obtain rfl := Option.some.inj hq
      exact ⟨t, u, rfl, hstarts, hjoins⟩
    | succ k => exact hhops k q hq

theorem traced_iff_walk : Traced pools t d ts ↔ ∃ entries, Walk t pools entries d ∧ ts = entries ++ [d] := by
  induction pools generalizing t ts with
  | nil =>
    rw [traced_nil_iff]
    constructor
    · rintro ⟨rfl, rfl⟩
      exact ⟨[], .arrived t, rfl⟩
    · rintro ⟨entries, hwalk, rfl⟩
      obtain ⟨rfl, rfl⟩ := walk_nil_iff.1 hwalk
      exact ⟨rfl, rfl⟩
  | cons p pools ih =>
    rw [traced_cons_iff]
    constructor
    · rintro ⟨u, later, hjoins, hlater, rfl⟩
      obtain ⟨entries, hwalk, rfl⟩ := ih.1 hlater
      exact ⟨t :: entries, .hop (Pool.other?_eq_some_iff.2 hjoins) hwalk, rfl⟩
    · rintro ⟨entries, hwalk, rfl⟩
      obtain ⟨u, later, hother, hlater, rfl⟩ := walk_cons_iff.1 hwalk
      exact ⟨u, later ++ [d], Pool.other?_eq_some_iff.1 hother, ih.2 ⟨later, hlater, rfl⟩, rfl⟩

theorem Traced.unique {ts' : List TokenId} {d' : TokenId} (h : Traced pools t d ts) (h' : Traced pools t d' ts') :
    ts = ts' := by
  obtain ⟨entries, hwalk, rfl⟩ := traced_iff_walk.1 h
  obtain ⟨entries', hwalk', rfl⟩ := traced_iff_walk.1 h'
  obtain ⟨rfl, rfl⟩ := hwalk.unique hwalk'
  rfl

/-! ## Where a path stops -/

/-- Different pools lead from one token to another. -/
def Passes (pools : List Pool) (source t : TokenId) : Prop :=
  (pools.map Pool.share).Nodup ∧ ∃ ts, Traced pools source t ts

theorem passes_iff : Passes pools source t ↔
    (pools.map Pool.share).Nodup ∧ ∃ entries, Walk source pools entries t := by
  refine and_congr_right fun _ => ?_
  constructor
  · rintro ⟨ts, h⟩
    obtain ⟨entries, hwalk, -⟩ := traced_iff_walk.1 h
    exact ⟨entries, hwalk⟩
  · rintro ⟨entries, hwalk⟩
    exact ⟨_, traced_iff_walk.2 ⟨entries, hwalk, rfl⟩⟩

theorem passes_nil : Passes [] source source :=
  passes_iff.2 ⟨List.nodup_nil, [], .arrived source⟩

theorem Passes.concat (h : Passes front source t) (new : p.share ∉ front.map Pool.share)
    (hother : p.other? t = some u) : Passes (front ++ [p]) source u := by
  obtain ⟨hnodup, entries, hwalk⟩ := passes_iff.1 h
  refine passes_iff.2 ⟨?_, entries ++ [t], walk_append_iff.2 ⟨t, entries, [t], hwalk, .hop hother (.arrived u), rfl⟩⟩
  rw [List.map_append, List.map_singleton]
  exact List.nodup_append_comm.1 (List.nodup_cons.2 ⟨new, hnodup⟩)

theorem passes_or_stops (source : TokenId) (pools : List Pool) : (∃ t, Passes pools source t) ∨
    ∃ front p rest t, pools = front ++ p :: rest ∧ Passes front source t ∧
      (p.share ∈ front.map Pool.share ∨ p.share ∉ front.map Pool.share ∧ ¬ p.contains t) := by
  -- By the last pool: the walk is stopped before it, or by it, or not at all.
  induction pools using List.reverseRecOn with
  | nil => exact .inl ⟨source, passes_nil⟩
  | append_singleton front p ih =>
    rcases ih with ⟨t, hpasses⟩ | ⟨front', p', rest, t, rfl, hpasses, hstops⟩
    · by_cases hused : p.share ∈ front.map Pool.share
      · exact .inr ⟨front, p, [], t, rfl, hpasses, .inl hused⟩
      · cases hother : p.other? t with
        | none => exact .inr ⟨front, p, [], t, rfl, hpasses, .inr ⟨hused, Pool.other?_eq_none_iff.1 hother⟩⟩
        | some u => exact .inl ⟨u, hpasses.concat hused hother⟩
    · exact .inr ⟨front', p', rest ++ [p], t, by simp, hpasses, hstops⟩

/-- Why a path is refused. What is told is wrong, and nothing is wrong before it. -/
inductive Refusal (pools : List Pool) (source destination : TokenId) : RouteError → Prop
  | empty (none : pools = []) : Refusal pools source destination .emptyPath
  | identical (some : pools ≠ []) (same : source = destination) : Refusal pools source destination .identicalTokens
  /-- The first pool does not have the source. -/
  | entrance {p : Pool} {rest : List Pool} (apart : source ≠ destination) (path : pools = p :: rest)
      (missing : ¬ p.contains source) : Refusal pools source destination .endpointMismatch
  /-- A pool is met again. -/
  | again {front rest : List Pool} {p : Pool} {t : TokenId} (apart : source ≠ destination)
      (path : pools = front ++ p :: rest) (passed : Passes front source t) (used : p.share ∈ front.map Pool.share) :
      Refusal pools source destination (.duplicatePool p.share)
  /-- A later pool does not have the token that the pools before it lead to. -/
  | broken {front rest : List Pool} {p : Pool} {t : TokenId} (apart : source ≠ destination)
      (path : pools = front ++ p :: rest) (later : 1 ≤ front.length) (passed : Passes front source t)
      (new : p.share ∉ front.map Pool.share) (missing : ¬ p.contains t) :
      Refusal pools source destination (.brokenPath front.length)
  /-- All pools are passed, but they lead elsewhere. -/
  | exit {t : TokenId} (some : pools ≠ []) (apart : source ≠ destination) (passed : Passes pools source t)
      (elsewhere : t ≠ destination) : Refusal pools source destination .endpointMismatch

/-! ## The walk is refused for the first violation -/

theorem follow_cons_eq_error_iff {hop : Nat} {used : List TokenId} {e : RouteError} (new : p.share ∉ used)
    (hother : p.other? t = some u) : follow d hop used t (p :: pools) = .error e ↔
      follow d (hop + 1) (p.share :: used) u pools = .error e := by
  rw [follow, if_neg new]
  simp only [hother]
  cases follow d (hop + 1) (p.share :: used) u pools with
  | error e' => simp [Except.map]
  | ok ts => simp [Except.map]

theorem Walk.follow_error_iff {hop : Nat} {used : List TokenId} {e : RouteError} (h : Walk t front entries m)
    (hnodup : (front.map Pool.share).Nodup) (hnew : ∀ share ∈ used, share ∉ front.map Pool.share) :
    follow d hop used t (front ++ rest) = .error e ↔
      follow d (hop + front.length) ((front.map Pool.share).reverse ++ used) m rest = .error e := by
  induction h generalizing hop used with
  | arrived => rfl
  | @hop p front entries t u m hother hwalk ih =>
    rw [List.map_cons, List.nodup_cons] at hnodup
    have hp : p.share ∉ used := fun hmem => hnew _ hmem List.mem_cons_self
    have hused : ∀ share ∈ p.share :: used, share ∉ front.map Pool.share :=
      List.forall_mem_cons.2 ⟨hnodup.1, fun share hmem hin => hnew share hmem (List.mem_cons_of_mem _ hin)⟩
    rw [List.cons_append, follow_cons_eq_error_iff hp hother, ih hnodup.2 hused, List.length_cons, List.map_cons,
      List.reverse_cons, List.append_assoc, List.singleton_append, Nat.add_assoc, Nat.add_comm 1]

theorem tokens_eq_follow (hsome : pools ≠ []) (apart : source ≠ destination) :
    tokens pools source destination = follow destination 0 [] source pools := by
  rw [tokens, if_neg hsome, if_neg apart]

theorem tokens_append_eq_error_iff {e : RouteError} (apart : source ≠ destination) (passed : Passes front source t) :
    tokens (front ++ p :: rest) source destination = .error e ↔
      follow destination front.length (front.map Pool.share).reverse t (p :: rest) = .error e := by
  obtain ⟨hnodup, entries, hwalk⟩ := passes_iff.1 passed
  rw [tokens_eq_follow (by simp) apart, hwalk.follow_error_iff hnodup (fun _ h => absurd h List.not_mem_nil),
    Nat.zero_add, List.append_nil]

theorem Refusal.tokens_eq {e : RouteError} (h : Refusal pools source destination e) :
    tokens pools source destination = .error e := by
  cases h with
  | empty none => rw [tokens, if_pos none]
  | identical some same => rw [tokens, if_neg some, if_pos same]
  | entrance apart path missing =>
    subst path
    rw [tokens_eq_follow (List.cons_ne_nil _ _) apart, follow, if_neg List.not_mem_nil,
      Pool.other?_eq_none_iff.2 missing]
    rfl
  | again apart path passed used =>
    subst path
    rw [tokens_append_eq_error_iff apart passed, follow, if_pos (List.mem_reverse.2 used)]
  | broken apart path later passed new missing =>
    subst path
    rw [tokens_append_eq_error_iff apart passed, follow, if_neg (mt List.mem_reverse.1 new),
      Pool.other?_eq_none_iff.2 missing]
    exact congrArg Except.error (if_neg (Nat.ne_of_gt later))
  | exit some apart passed elsewhere =>
    obtain ⟨hnodup, entries, hwalk⟩ := passes_iff.1 passed
    rw [tokens_eq_follow some apart, ← List.append_nil pools, hwalk.follow_error_iff hnodup
      (fun _ h => absurd h List.not_mem_nil), follow, if_neg elsewhere]

theorem exists_refusal (h : ∀ ts, tokens pools source destination ≠ .ok ts) :
    ∃ e, Refusal pools source destination e := by
  by_cases hsome : pools = []
  · exact ⟨_, .empty hsome⟩
  by_cases hapart : source = destination
  · exact ⟨_, .identical hsome hapart⟩
  rcases passes_or_stops source pools with ⟨t, hpasses⟩ | ⟨front, p, rest, t, hpath, hpasses, hstops⟩
  · refine ⟨_, .exit hsome hapart hpasses ?_⟩
    rintro rfl
    obtain ⟨hnodup, entries, hwalk⟩ := passes_iff.1 hpasses
    exact h _ (tokens_eq_ok_iff.2 ⟨hsome, hapart, hnodup, entries, hwalk, rfl⟩)
  · rcases hstops with hused | ⟨hnew, hmissing⟩
    · exact ⟨_, .again hapart hpath hpasses hused⟩
    · cases front with
      | nil =>
        obtain ⟨-, entries, hwalk⟩ := passes_iff.1 hpasses
        obtain ⟨-, rfl⟩ := walk_nil_iff.1 hwalk
        exact ⟨_, .entrance hapart hpath hmissing⟩
      | cons first front => exact ⟨_, .broken hapart hpath (Nat.succ_pos _) hpasses hnew hmissing⟩

/-- **Exactly the paths that lead from the source to the destination are traced.** There are pools, the two
ends and all pools are different, and each pool joins the tokens at its place and after it, which are then
the only ones. Any other path is refused for what is met first: whether the pool of a hop is new is looked
at before whether it has the token. -/
theorem tokens_exact (pools : List Pool) (source destination : TokenId) :
    (∀ ts, tokens pools source destination = .ok ts ↔
      1 ≤ pools.length ∧ source ≠ destination ∧ (pools.map Pool.share).Nodup ∧ Traced pools source destination ts) ∧
    (∀ ts ts', Traced pools source destination ts → Traced pools source destination ts' → ts = ts') ∧
    ∀ e, tokens pools source destination = .error e ↔ Refusal pools source destination e := by
  refine ⟨fun ts => ?_, fun ts ts' => Traced.unique, fun e => ⟨fun h => ?_, Refusal.tokens_eq⟩⟩
  · rw [tokens_eq_ok_iff, traced_iff_walk, Nat.one_le_iff_ne_zero, ne_eq pools.length, List.length_eq_zero_iff]
  · -- Some refusal there is, and it can only be this one.
    obtain ⟨e', hrefusal⟩ := exists_refusal fun ts hok => nomatch h.symm.trans hok
    obtain rfl := Except.error.inj (h.symm.trans hrefusal.tokens_eq)
    exact hrefusal

/-- From token 1 to token 3, back through token 1. -/
def loopPath : List Pool :=
  [⟨⟨10⟩, ⟨1⟩, ⟨2⟩, 5, ⟨5, 5⟩⟩, ⟨⟨11⟩, ⟨1⟩, ⟨2⟩, 5, ⟨5, 5⟩⟩, ⟨⟨12⟩, ⟨1⟩, ⟨3⟩, 5, ⟨5, 5⟩⟩]

theorem tokens_exact_loop :
    Traced loopPath ⟨1⟩ ⟨3⟩ [⟨1⟩, ⟨2⟩, ⟨1⟩, ⟨3⟩] ∧
      Refusal (loopPath ++ loopPath.take 1) ⟨1⟩ ⟨2⟩ (.duplicatePool ⟨10⟩) ∧
      Refusal (loopPath.drop 1) ⟨1⟩ ⟨3⟩ (.brokenPath 1) := by
  have htraced := ((tokens_exact loopPath ⟨1⟩ ⟨3⟩).1 [⟨1⟩, ⟨2⟩, ⟨1⟩, ⟨3⟩]).1 (by decide)
  -- the first pool, met again after the last one, does not have token 3 either
  have hagain := ((tokens_exact (loopPath ++ loopPath.take 1) ⟨1⟩ ⟨2⟩).2.2 (.duplicatePool ⟨10⟩)).1 (by decide)
  have hbroken := ((tokens_exact (loopPath.drop 1) ⟨1⟩ ⟨3⟩).2.2 (.brokenPath 1)).1 (by decide)
  exact ⟨htraced.2.2.2, hagain, hbroken⟩

end Path

end SwapStake
