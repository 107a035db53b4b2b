import SwapStake.Proofs.Token.Registry
/-!
# Pairs and their names

Two tokens with names have one direct order (`TokenDirectory.Direct`), whichever of them is given first.
Naming a pair and reading a name back are different programs, but both are told by this one relation
(`pairName_eq_ok_iff`, `ofPairName_eq_ok_iff`). So every pair of registered tokens has one name, which is
read back as that pair, and a text that is read is the name of what it is read as.
-/

namespace SwapStake

namespace TokenDirectory

/-! ## Texts with a separator -/

theorem cutAtSeparator_eq_some_iff {text left right : List Char} :
    cutAtSeparator text = some (left, right) ↔ text = left ++ pairSeparator :: right ∧ pairSeparator ∉ left := by
  induction text generalizing left with
  | nil => simp [cutAtSeparator]
  | cons c rest ih =>
    rw [cutAtSeparator]
    by_cases hc : c = pairSeparator
    · rw [if_pos hc]
      cases left with
      | nil => simp [hc, eq_comm]
      | cons c' left =>
        refine iff_of_false (by simp) ?_
        rintro ⟨htext, hplain⟩
        obtain ⟨rfl, -⟩ := List.cons.inj htext
        exact hplain (hc ▸ List.mem_cons_self)
    · rw [if_neg hc, Option.map_eq_some_iff]
      cases left with
      | nil =>
        refine iff_of_false ?_ fun h => hc (List.cons.inj h.1).1
        rintro ⟨cut, -, h⟩
        exact List.cons_ne_nil _ _ (Prod.mk.inj h).1
      | cons c' left =>
        constructor
        · rintro ⟨⟨left', right'⟩, hcut, h⟩
          obtain ⟨⟨rfl, rfl⟩, rfl⟩ : (c = c' ∧ left' = left) ∧ right' = right := by simpa using h
          obtain ⟨rfl, hplain⟩ := ih.1 hcut
          exact ⟨rfl, by simp [hplain, Ne.symm hc]⟩
        · rintro ⟨htext, hplain⟩
          obtain ⟨rfl, rfl⟩ := List.cons.inj htext
          exact ⟨(left, right), ih.2 ⟨rfl, fun h => hplain (List.mem_cons_of_mem _ h)⟩, rfl⟩

/-- The text with one name on either side of the separator. -/
def joined (left right : String) : String :=
  String.ofList (left.toList ++ pairSeparator :: right.toList)

theorem cutAtSeparator_joined {left : String} (proper : ProperName left) (right : String) :
    cutAtSeparator (joined left right).toList = some (left.toList, right.toList) := by
  rw [joined, String.toList_ofList, cutAtSeparator_eq_some_iff]
  exact ⟨rfl, proper.plain⟩

/-! ## Direct order -/

/-- Names and numbers are inverse to each other, all names are proper, and there is one native coin. -/
structure Lawful (d : TokenDirectory) : Prop where
  inverse : ∀ t name, d.nameOf? t = some name ↔ d.idOf? name = some t
  proper : ∀ t name, d.nameOf? t = some name → ProperName name
  oneNative : ∀ a b, d.isNative a → d.isNative b → a = b

/-- Two tokens in direct order with the names on either side of the separator: the native coin is the
second one, or neither is native and their names ascend. -/
structure Direct (d : TokenDirectory) (first second : TokenId) (left right : String) : Prop where
  secondName : d.nameOf? second = some left
  firstName : d.nameOf? first = some right
  notNative : ¬ d.isNative first
  placed : d.isNative second ∨ right < left

variable {d : TokenDirectory} {a b first second : TokenId} {left right name : String}

theorem name_eq_ok_iff : d.name a = .ok name ↔ d.nameOf? a = some name := by
  rw [TokenDirectory.name]
  cases d.nameOf? a <;> simp

theorem id_eq_ok_iff : d.id name = .ok a ↔ d.idOf? name = some a := by
  rw [TokenDirectory.id]
  cases d.idOf? name <;> simp

theorem Direct.ne (h : d.Direct first second left right) : first ≠ second := by
  rintro rfl
  rcases h.placed with hnative | hlt
  · exact h.notNative hnative
  · rw [Option.some.inj (h.firstName.symm.trans h.secondName)] at hlt
    exact String.lt_irrefl _ hlt

theorem directOrder_of_named (hne : a ≠ b) (ha : d.nameOf? a = some left) (hb : d.nameOf? b = some right) :
    d.directOrder a b = .ok
      (if d.isNative a then (b, a) else if d.isNative b then (a, b) else if right < left then (b, a) else (a, b)) := by
  rw [directOrder, if_neg hne, name_eq_ok_iff.2 ha, name_eq_ok_iff.2 hb]
  show (if d.isNative a then _ else if d.isNative b then _ else if right < left then _ else _) = _
  split
  · rfl
  · split
    · rfl
    · split
      · rfl
      · rfl

theorem Direct.directOrder (h : d.Direct first second left right) :
    d.directOrder first second = .ok (first, second) ∧ d.directOrder second first = .ok (first, second) := by
  rw [directOrder_of_named h.ne h.firstName h.secondName, directOrder_of_named h.ne.symm h.secondName h.firstName,
    if_neg h.notNative, if_neg h.notNative]
  by_cases hnative : d.isNative second
  · simp [hnative]
  · have hlt := h.placed.resolve_left hnative
    simp [hnative, hlt, String.lt_asymm hlt]

namespace Lawful

variable (lawful : d.Lawful)
include lawful

theorem name_injective (h : d.nameOf? a = some name) (h' : d.nameOf? b = some name) : a = b :=
  Option.some.inj (((lawful.inverse a name).1 h).symm.trans ((lawful.inverse b name).1 h'))

theorem direct_total (hne : a ≠ b) (ha : d.nameOf? a = some left) (hb : d.nameOf? b = some right) :
    d.Direct a b right left ∨ d.Direct b a left right := by
  by_cases hnative : d.isNative a
  · exact .inr ⟨ha, hb, fun h => hne (lawful.oneNative a b hnative h), .inl hnative⟩
  by_cases hnative' : d.isNative b
  · exact .inl ⟨hb, ha, hnative, .inl hnative'⟩
  by_cases hlt : left < right
  · exact .inl ⟨hb, ha, hnative, .inr hlt⟩
  by_cases hlt' : right < left
  · exact .inr ⟨ha, hb, hnative', .inr hlt'⟩
  · obtain rfl := String.le_antisymm (String.not_lt.1 hlt') (String.not_lt.1 hlt)
    exact absurd (lawful.name_injective ha hb) hne

theorem directOrder_eq_ok_iff : d.directOrder a b = .ok (first, second) ↔
    (first = a ∧ second = b ∨ first = b ∧ second = a) ∧ ∃ left right, d.Direct first second left right := by
  constructor
  · intro h
    have hne : a ≠ b := by
      rintro rfl
      rw [directOrder, if_pos rfl] at h
      cases h
    obtain ⟨nameA, ha, nameB, hb⟩ : ∃ nameA, d.nameOf? a = some nameA ∧ ∃ nameB, d.nameOf? b = some nameB := by
      rw [directOrder, if_neg hne, bind_eq_ok_iff] at h
      obtain ⟨nameA, ha, h⟩ := h
      obtain ⟨nameB, hb, -⟩ := bind_eq_ok_iff.1 h
      exact ⟨nameA, name_eq_ok_iff.1 ha, nameB, name_eq_ok_iff.1 hb⟩
    rcases lawful.direct_total hne ha hb with hdirect | hdirect
    · rw [hdirect.directOrder.1, Except.ok.injEq, Prod.mk.injEq] at h
      obtain ⟨rfl, rfl⟩ := h
      exact ⟨.inl ⟨rfl, rfl⟩, _, _, hdirect⟩
    · rw [hdirect.directOrder.2, Except.ok.injEq, Prod.mk.injEq] at h
      obtain ⟨rfl, rfl⟩ := h
      exact ⟨.inr ⟨rfl, rfl⟩, _, _, hdirect⟩
  · rintro ⟨⟨rfl, rfl⟩ | ⟨rfl, rfl⟩, left, right, hdirect⟩
    · exact hdirect.directOrder.1
    · exact hdirect.directOrder.2

/-! ## Names of pairs -/

/-- **A pair has a name exactly if it has a direct order**, and the name tells this order. -/
theorem pairName_eq_ok_iff : d.pairName a b = .ok name ↔ ∃ left right,
    (d.Direct a b left right ∨ d.Direct b a left right) ∧ name = joined left right := by
  rw [pairName, bind_eq_ok_iff]
  constructor
  · rintro ⟨⟨first, second⟩, horder, h⟩
    obtain ⟨left, hleft, h⟩ := bind_eq_ok_iff.1 h
    obtain ⟨right, hright, h⟩ := bind_eq_ok_iff.1 h
    obtain ⟨htokens, left', right', hdirect⟩ := lawful.directOrder_eq_ok_iff.1 horder
    obtain rfl := Option.some.inj (hdirect.secondName.symm.trans (name_eq_ok_iff.1 hleft))
    obtain rfl := Option.some.inj (hdirect.firstName.symm.trans (name_eq_ok_iff.1 hright))
    refine ⟨left', right', ?_, (pure_eq_ok_iff.1 h).symm⟩
    rcases htokens with ⟨rfl, rfl⟩ | ⟨rfl, rfl⟩
    · exact .inl hdirect
    · exact .inr hdirect
  · rintro ⟨left, right, hdirect | hdirect, rfl⟩
    · exact ⟨_, hdirect.directOrder.1, bind_eq_ok_iff.2 ⟨left, name_eq_ok_iff.2 hdirect.secondName,
        bind_eq_ok_iff.2 ⟨right, name_eq_ok_iff.2 hdirect.firstName, rfl⟩⟩⟩
    · exact ⟨_, hdirect.directOrder.2, bind_eq_ok_iff.2 ⟨left, name_eq_ok_iff.2 hdirect.secondName,
        bind_eq_ok_iff.2 ⟨right, name_eq_ok_iff.2 hdirect.firstName, rfl⟩⟩⟩

/-- **Reading back finds exactly the pairs in direct order whose name the text is.** -/
theorem ofPairName_eq_ok_iff : d.ofPairName name = .ok (first, second) ↔ ∃ left right,
    d.Direct first second left right ∧ name = joined left right := by
  constructor
  · intro h
    rw [ofPairName] at h
    split at h
    · cases h
    · rename_i left right hcut
      obtain ⟨-, h⟩ := guard_eq_ok_iff.1 h
      obtain ⟨second', hsecond, h⟩ := bind_eq_ok_iff.1 h
      obtain ⟨first', hfirst, h⟩ := bind_eq_ok_iff.1 h
      obtain ⟨order, horder, h⟩ := bind_eq_ok_iff.1 h
      split at h
      · rename_i hkept
        obtain ⟨rfl, rfl⟩ := Prod.mk.inj (pure_eq_ok_iff.1 h)
        rw [hkept] at horder
        obtain ⟨-, left', right', hdirect⟩ := lawful.directOrder_eq_ok_iff.1 horder
        have hleft := (lawful.inverse _ _).2 (id_eq_ok_iff.1 hsecond)
        have hright := (lawful.inverse _ _).2 (id_eq_ok_iff.1 hfirst)
        obtain rfl := Option.some.inj (hdirect.secondName.symm.trans hleft)
        obtain rfl := Option.some.inj (hdirect.firstName.symm.trans hright)
        refine ⟨_, _, hdirect, ?_⟩
        rw [← String.toList_inj, joined, String.toList_ofList, String.toList_ofList, String.toList_ofList]
        exact (cutAtSeparator_eq_some_iff.1 hcut).1
      · cases h
  · rintro ⟨left, right, hdirect, rfl⟩
    have hleft := lawful.proper _ _ hdirect.secondName
    have hright := lawful.proper _ _ hdirect.firstName
    have hnames : left ≠ right := by
      rintro rfl
      exact hdirect.ne (lawful.name_injective hdirect.firstName hdirect.secondName)
    have haccepted : ¬ (left.toList = [] ∨ right.toList = [] ∨ left.toList = right.toList) := by
      rintro (h | h | h)
      · exact hleft.nonempty h
      · exact hright.nonempty h
      · exact hnames (String.toList_inj.1 h)
    rw [ofPairName, cutAtSeparator_joined hleft]
    dsimp only
    rw [if_neg haccepted, String.ofList_toList, String.ofList_toList]
    refine bind_eq_ok_iff.2 ⟨second, id_eq_ok_iff.2 ((lawful.inverse _ _).1 hdirect.secondName), ?_⟩
    refine bind_eq_ok_iff.2 ⟨first, id_eq_ok_iff.2 ((lawful.inverse _ _).1 hdirect.firstName), ?_⟩
    exact bind_eq_ok_iff.2 ⟨_, hdirect.directOrder.1, by rw [if_pos rfl]; rfl⟩

theorem pairName_comm : d.pairName a b = .ok name ↔ d.pairName b a = .ok name := by
  rw [lawful.pairName_eq_ok_iff, lawful.pairName_eq_ok_iff]
  exact exists_congr fun _ => exists_congr fun _ => and_congr_left' or_comm

theorem pairName_of_read (h : d.ofPairName name = .ok (first, second)) :
    d.pairName first second = .ok name := by
  obtain ⟨left, right, hdirect, rfl⟩ := lawful.ofPairName_eq_ok_iff.1 h
  exact lawful.pairName_eq_ok_iff.2 ⟨left, right, .inl hdirect, rfl⟩

theorem read_of_pairName (h : d.pairName a b = .ok name) :
    d.ofPairName name = .ok (a, b) ∨ d.ofPairName name = .ok (b, a) := by
  obtain ⟨left, right, hdirect | hdirect, rfl⟩ := lawful.pairName_eq_ok_iff.1 h
  · exact .inl (lawful.ofPairName_eq_ok_iff.2 ⟨left, right, hdirect, rfl⟩)
  · exact .inr (lawful.ofPairName_eq_ok_iff.2 ⟨left, right, hdirect, rfl⟩)

theorem pair_unique {a' b' : TokenId} (h : d.pairName a b = .ok name) (h' : d.pairName a' b' = .ok name) :
    a' = a ∧ b' = b ∨ a' = b ∧ b' = a := by
  rcases lawful.read_of_pairName h with hread | hread <;> rcases lawful.read_of_pairName h' with hread' | hread' <;>
    · rw [hread, Except.ok.injEq, Prod.mk.injEq] at hread'
      grind

theorem named_of_ne (hne : a ≠ b) (ha : (d.nameOf? a).isSome) (hb : (d.nameOf? b).isSome) :
    ∃ name first second, d.pairName a b = .ok name ∧ d.directOrder a b = .ok (first, second) ∧
      d.ofPairName name = .ok (first, second) ∧ ¬ d.isNative first := by
  obtain ⟨nameA, ha⟩ := Option.isSome_iff_exists.1 ha
  obtain ⟨nameB, hb⟩ := Option.isSome_iff_exists.1 hb
  rcases lawful.direct_total hne ha hb with hdirect | hdirect
  · exact ⟨_, a, b, lawful.pairName_eq_ok_iff.2 ⟨_, _, .inl hdirect, rfl⟩, hdirect.directOrder.1,
      lawful.ofPairName_eq_ok_iff.2 ⟨_, _, hdirect, rfl⟩, hdirect.notNative⟩
  · exact ⟨_, b, a, lawful.pairName_eq_ok_iff.2 ⟨_, _, .inr hdirect, rfl⟩, hdirect.directOrder.2,
      lawful.ofPairName_eq_ok_iff.2 ⟨_, _, hdirect, rfl⟩, hdirect.notNative⟩

theorem isPairName_iff : d.isPairName name ↔ ∃ a b, a ≠ b ∧ (d.nameOf? a).isSome ∧ (d.nameOf? b).isSome ∧
    d.pairName a b = .ok name := by
  have hread : d.isPairName name ↔ ∃ pair, d.ofPairName name = .ok pair := by
    rw [isPairName]
    cases d.ofPairName name <;> simp [Except.isOk, Except.toBool]
  rw [hread]
  constructor
  · rintro ⟨⟨first, second⟩, h⟩
    obtain ⟨left, right, hdirect, -⟩ := lawful.ofPairName_eq_ok_iff.1 h
    exact ⟨first, second, hdirect.ne, by rw [hdirect.firstName]; rfl, by rw [hdirect.secondName]; rfl,
      lawful.pairName_of_read h⟩
  · rintro ⟨a, b, -, -, -, h⟩
    rcases lawful.read_of_pairName h with h | h
    · exact ⟨_, h⟩
    · exact ⟨_, h⟩

end Lawful

end TokenDirectory

namespace TokenRegistry

theorem Consistent.lawful {r : TokenRegistry} (h : r.Consistent) : r.directory.Lawful where
  inverse := h.inverse
  proper := h.proper
  oneNative _ _ ha hb := (of_decide_eq_true ha).trans (of_decide_eq_true hb).symm

/-- **Names of pairs and unordered pairs of registered tokens are the same thing.** Whatever is
registered or refused after the native coin, names and numbers stay inverse to each other. A token is
refused for an improper name or for what is registered already, and then nothing changes. Two different
tokens have one name, in whatever order they are given; it is read back as their direct order, with the
native coin second. Conversely a text that is read is the name of the pair that it is read as. So the
texts that are accepted are the names of pairs, and no two pairs share one. -/
theorem pairNames_bijective (native : TokenId) (nativeName : String) (proper : ProperName nativeName)
    (calls : List (TokenId × String)) :
    let r := (new native nativeName).offerAll calls
    let d := r.directory
    (∀ t name, r.nameOf? t = some name ↔ r.idOf? name = some t) ∧
    (∀ t name, (∃ e, r.register t name = .error e) ↔
      ¬ (ProperName name ∧ r.nameOf? t = none ∧ r.idOf? name = none)) ∧
    (∀ t name e, r.register t name = .error e → r.offer (t, name) = r) ∧
    (∀ x y, x ≠ y → (r.nameOf? x).isSome → (r.nameOf? y).isSome →
      ∃ name first second, d.pairName x y = .ok name ∧ d.pairName y x = .ok name ∧
        d.directOrder x y = .ok (first, second) ∧ d.ofPairName name = .ok (first, second) ∧
        (native = x ∨ native = y → second = native)) ∧
    (∀ name first second, d.ofPairName name = .ok (first, second) →
      d.pairName first second = .ok name ∧ d.pairName second first = .ok name) ∧
    (∀ name, d.isPairName name ↔
      ∃ x y, x ≠ y ∧ (r.nameOf? x).isSome ∧ (r.nameOf? y).isSome ∧ d.pairName x y = .ok name) ∧
    (∀ x y x' y' name, d.pairName x y = .ok name → d.pairName x' y' = .ok name →
      x' = x ∧ y' = y ∨ x' = y ∧ y' = x) := by
  intro r d
  have hconsistent : r.Consistent := (new_consistent native proper).offerAll calls
  have lawful : d.Lawful := hconsistent.lawful
  have hnative : r.native = native := offerAll_native (new native nativeName) calls
  refine ⟨hconsistent.inverse, fun t name => register_eq_error_iff, fun t name e => offer_of_error,
    fun x y hne hx hy => ?_, fun name first second h => ?_, fun name => lawful.isPairName_iff,
    fun x y x' y' name => lawful.pair_unique⟩
  · obtain ⟨name, first, second, hname, horder, hread, hfirst⟩ := lawful.named_of_ne hne hx hy
    refine ⟨name, first, second, hname, lawful.pairName_comm.1 hname, horder, hread, fun hcoin => ?_⟩
    have hne' : first ≠ native := fun h => hfirst (decide_eq_true (h.trans hnative.symm))
    rcases (lawful.directOrder_eq_ok_iff.1 horder).1 with ⟨rfl, rfl⟩ | ⟨rfl, rfl⟩
    · exact (hcoin.resolve_left hne'.symm).symm
    · exact (hcoin.resolve_right hne'.symm).symm
  · exact ⟨lawful.pairName_of_read h, lawful.pairName_comm.1 (lawful.pairName_of_read h)⟩

/-- A registry of three tokens, in which two calls were refused. -/
def trialCalls : List (TokenId × String) :=
  [(⟨7⟩, "ZED"), (⟨9⟩, "ABC"), (⟨9⟩, "DUP"), (⟨11⟩, "A/B")]

theorem pairNames_bijective_three_tokens :
    let d := ((new ⟨0⟩ "AMUN").offerAll trialCalls).directory
    ProperName "AMUN" ∧ d.ofPairName "ZED/ABC" = .ok (⟨9⟩, ⟨7⟩) ∧
      d.pairName ⟨9⟩ ⟨7⟩ = .ok "ZED/ABC" ∧ d.pairName ⟨7⟩ ⟨9⟩ = .ok "ZED/ABC" := by
  intro d
  have hproper : ProperName "AMUN" := ⟨by decide, by decide⟩
  have hread : d.ofPairName "ZED/ABC" = .ok (⟨9⟩, ⟨7⟩) :=
    toOption_eq_some_iff.1 (by decide +kernel)
  obtain ⟨-, -, -, -, hnamed, -⟩ := pairNames_bijective ⟨0⟩ "AMUN" hproper trialCalls
  exact ⟨hproper, hread, hnamed "ZED/ABC" ⟨9⟩ ⟨7⟩ hread⟩

end TokenRegistry

end SwapStake
