import GoLike.Registry.Selector.Weighted

/-!
# Proportions of a weighted round robin

The slots that are selected in a domain go round the slots of its endpoints, so that each
endpoint is selected as often as its weight says.
-/

open Store

namespace Registry.WeightedRoundRobin

variable {urls : UrlParser} {ε : Type}

/-! ### Selections are turns -/

/-- The visit of the domain of a call. -/
def visit? (urls : UrlParser) (call : WeightedCall ε urls) :
    Option (Visit JsString WeightedCursor (Selection (WeightedCall ε urls) urls)) :=
  match weightedCandidates urls call with
  | .error _ => none
  | .ok c =>
      some ⟨selectionDomain c.snapshot, fun o =>
        (⟨call, (nextWeightedChoice c.first c.rest o).1⟩, (nextWeightedChoice c.first c.rest o).2)⟩

variable {call : WeightedCall ε urls}

theorem visit?_eq_some {x : Visit JsString WeightedCursor (Selection (WeightedCall ε urls) urls)}
    (h : visit? urls call = some x) :
  ∃ c, weightedCandidates urls call = .ok c ∧ x = ⟨domainText call.domain, fun o =>
    (⟨call, (nextWeightedChoice c.first c.rest o).1⟩, (nextWeightedChoice c.first c.rest o).2)⟩
  := by
  rw [visit?] at h
  split at h
  · cases h
  · rename_i c hc
    cases h
    use c, hc
    obtain ⟨c', hc', hsnapshot, _⟩ := weightedCandidates_eq_ok hc
    rw [selectionDomain_eq, WeightedCall.domain, SelectCall.domain, SelectCall.snapshot_eq hc',
      hsnapshot]

theorem visits : Visits (select urls) (visit? urls : WeightedCall ε urls → _)
  := by
  constructor
  case fails =>
    intro s call h
    rw [visit?] at h
    split at h
    · rename_i e hc
      exact ⟨e, by rw [select, hc]⟩
    · cases h
  case succeeds =>
    intro s call x h
    rw [visit?] at h
    split at h
    · cases h
    · rename_i c hc
      cases h
      exact ⟨rfl, by rw [select, hc]; rfl⟩

/-- The turn of a weighted selection. -/
abbrev WeightedTurn (ε : Type) (urls : UrlParser) : Type :=
  Turn JsString WeightedCursor (Selection (WeightedCall ε urls) urls)

/-- The slot that is selected at a turn. -/
def slotOf (t : WeightedTurn ε urls) : EndpointKey × ℕ := (t.picked.picked.key, t.cursor.slot)

/-- What is known about a turn. -/
structure Turned (t : WeightedTurn ε urls) (c : WeightedCandidates urls) : Prop where
  candidates : weightedCandidates urls t.picked.call = .ok c
  key : t.visit.key = domainText t.picked.call.domain
  picked : ∃ x ∈ c.endpoints, t.picked.picked = x.endpoint ∧
    t.cursor = ⟨endpointIdentity x.endpoint, t.cursor.slot⟩ ∧ t.cursor.slot < x.weight
  sees : ∀ o, t.Sees o → (t.picked.picked, t.cursor) = nextWeightedChoice c.first c.rest o

variable {selections : JsMap JsString WeightedCursor}

theorem turn_turned {calls : List (WeightedCall ε urls)} {t : WeightedTurn ε urls}
    (h : t ∈ callTurns (visit? urls) selections calls) :
  ∃ c, Turned t c
  := by
  obtain ⟨hvisit, o, hsees⟩ := JsMap.mem_turns h
  obtain ⟨call, _, hcall⟩ := List.mem_filterMap.mp hvisit
  obtain ⟨c, hc, hx⟩ := visit?_eq_some hcall
  obtain ⟨visit, ⟨call', picked⟩, cursor⟩ := t
  obtain rfl : visit = _ := hx
  have hpair : ((⟨call, (nextWeightedChoice c.first c.rest o).1⟩ :
      Selection (WeightedCall ε urls) urls), (nextWeightedChoice c.first c.rest o).2) =
        (⟨call', picked⟩, cursor) := hsees
  rw [Prod.mk.injEq, Selection.mk.injEq] at hpair
  obtain ⟨⟨rfl, rfl⟩, rfl⟩ := hpair
  use c
  constructor
  case candidates => exact hc
  case key => rfl
  case picked =>
    obtain ⟨x, hx, hpicked, hidentity, hslot⟩ := nextWeightedChoice_mem c.first c.rest o
    exact ⟨x, hx, hpicked, by rw [← hidentity], hslot⟩
  case sees =>
    intro o' hsees'
    have hpair' : ((⟨call, (nextWeightedChoice c.first c.rest o').1⟩ :
        Selection (WeightedCall ε urls) urls), (nextWeightedChoice c.first c.rest o').2) =
          (⟨call, (nextWeightedChoice c.first c.rest o).1⟩,
            (nextWeightedChoice c.first c.rest o).2) := hsees'
    rw [Prod.mk.injEq, Selection.mk.injEq] at hpair'
    exact Prod.ext hpair'.1.2.symm hpair'.2.symm

/-! ### Proportions -/

/-- The slots of endpoints with given weights. -/
def allSlots (E : Finset EndpointKey) (w : EndpointKey → ℕ) : List (EndpointKey × ℕ) :=
  E.sort.flatMap (fun k => (List.range (w k)).map (fun slot => (k, slot)))

/-- The weights of a call are the given ones. -/
def WeightedCall.Weighs (call : WeightedCall ε urls) (w : EndpointKey → ℕ) : Prop :=
  ∀ e ∈ serviceEndpoints (call.toSelectCall.snapshot urls), call.weightOf e = w e.key

variable {c : WeightedCandidates urls}

theorem WeightedCall.Weighs.weight_eq {w : EndpointKey → ℕ} (hw : call.Weighs w)
    (hc : weightedCandidates urls call = .ok c) {x : WeightedEndpoint urls} (hx : x ∈ c.endpoints) :
  x.weight = w x.key
  := by
  obtain ⟨c', hc', _, hendpoints, hweights⟩ := weightedCandidates_eq_ok hc
  rw [hweights x hx]
  apply hw
  rw [SelectCall.snapshot_eq hc', (candidates_eq_ok.mp hc').2.2, ← hendpoints]
  exact List.mem_map_of_mem hx

theorem slots_eq (hc : weightedCandidates urls call = .ok c) {w : EndpointKey → ℕ}
    (hw : call.Weighs w) :
  slots c.endpoints = allSlots call.endpoints w
  := by
  rw [allSlots, ← keys_weightedCandidates hc, List.flatMap_map, slots]
  apply List.flatMap_congr
  intro x hx
  rw [hw.weight_eq hc hx]

theorem nodup_allSlots (E : Finset EndpointKey) (w : EndpointKey → ℕ) :
  (allSlots E w).Nodup
  := by
  rw [allSlots, List.nodup_flatMap]
  constructor
  · intro k _
    apply List.nodup_range.map
    intro slot slot' h
    exact congrArg Prod.snd h
  · refine (E.sort_nodup (· ≤ ·)).imp ?_
    intro k k' hne p hp hp'
    obtain ⟨_, _, rfl⟩ := List.mem_map.mp hp
    obtain ⟨_, _, heq⟩ := List.mem_map.mp hp'
    exact hne (congrArg Prod.fst heq).symm

theorem sum_sort (E : Finset EndpointKey) (f : EndpointKey → ℕ) :
  (E.sort.map f).sum = ∑ k ∈ E, f k
  := by
  rw [((E.sort_perm_toList (· ≤ ·)).map f).sum_eq, Finset.sum_map_toList]

theorem length_allSlots (E : Finset EndpointKey) (w : EndpointKey → ℕ) :
  (allSlots E w).length = ∑ k ∈ E, w k
  := by
  rw [allSlots, List.length_flatMap, ← sum_sort]
  simp only [List.length_map, List.length_range]

variable {k : EndpointKey}

/-- An endpoint has as many slots as its weight says. -/
theorem count_allSlots {E : Finset EndpointKey} {w : EndpointKey → ℕ} (hk : k ∈ E) :
  ((allSlots E w).map Prod.fst).count k = w k
  := by
  have hcount : ∀ k', (((List.range (w k')).map (fun slot => (k', slot))).map Prod.fst).count k =
      if k' = k then w k' else 0 := by
    intro k'
    rw [List.map_map]
    have hconst : (List.range (w k')).map (Prod.fst ∘ fun slot => (k', slot)) =
        List.replicate (w k') k' := by
      rw [List.eq_replicate_iff]
      simp
    rw [hconst, List.count_replicate]
    simp only [beq_iff_eq]
  rw [allSlots, List.map_flatMap, List.count_flatMap]
  have hsum : (E.sort.map (fun k' => if k' = k then w k' else 0)).sum = w k := by
    rw [sum_sort, Finset.sum_eq_single_of_mem k hk]
    · exact if_pos rfl
    · exact fun k' _ hne => if_neg hne
  rw [← hsum]
  congr 1
  apply List.map_congr_left
  intro k' _
  exact hcount k'

/-! ### The turns of a domain -/

/-- The turns of a domain. -/
def domainTurns (urls : UrlParser) (selections : JsMap JsString WeightedCursor)
    (calls : List (WeightedCall ε urls)) (D : Finset ServiceTuple) : List (WeightedTurn ε urls) :=
  (callTurns (visit? urls) selections calls).filter (fun t => t.visit.key = domainText D)

/-- The selections in a domain. -/
def domainSelections (urls : UrlParser) (selections : JsMap JsString WeightedCursor)
    (calls : List (WeightedCall ε urls)) (D : Finset ServiceTuple) :
    List (Selection (WeightedCall ε urls) urls) :=
  (run urls selections calls).1.filter (fun s => s.call.domain = D)

section

variable {selections : JsMap JsString WeightedCursor} {calls : List (WeightedCall ε urls)}
  {D : Finset ServiceTuple}

theorem key_turn {t : WeightedTurn ε urls} (h : t ∈ callTurns (visit? urls) selections calls) :
  t.visit.key = domainText t.picked.call.domain
  := by
  obtain ⟨_, hturned⟩ := turn_turned h
  exact hturned.key

theorem domainSelections_eq :
  domainSelections urls selections calls D = (domainTurns urls selections calls D).map Turn.picked
  := by
  rw [domainSelections, run, visits.selectAll_eq]
  exact filter_turns (fun t ht => key_turn ht) D

theorem mem_domainTurns {t : WeightedTurn ε urls} (h : t ∈ domainTurns urls selections calls D) :
  t.picked ∈ (run urls selections calls).1 ∧ t.picked.call.domain = D ∧ ∃ c, Turned t c
  := by
  obtain ⟨hturn, hkey⟩ := List.mem_filter.mp h
  refine ⟨?_, ?_, turn_turned hturn⟩
  · rw [run, visits.selectAll_eq]
    exact List.mem_map_of_mem hturn
  · exact domainText_injective ((key_turn hturn).symm.trans (of_decide_eq_true hkey))

/-- A turn of a domain sees the cursor of the turn before it. -/
theorem isChain_domainTurns (hfrequent : Frequent maximumSelectionDomains D
    ((run urls selections calls).1.map (fun s => s.call.domain))) :
  (domainTurns urls selections calls D).IsChain (fun a b => b.Sees (some a.cursor))
  := by
  rw [run, visits.selectAll_eq] at hfrequent
  have htexts := frequent_turns (fun t ht => key_turn ht) hfrequent
  rw [callTurns, JsMap.keys_turns] at htexts
  exact JsMap.isChain_turns htexts

/-- The slots that are selected in a domain go round the slots of its endpoints. -/
theorem domainTurns_goRound {E : Finset EndpointKey} {w : EndpointKey → ℕ}
    (hfrequent : Frequent maximumSelectionDomains D
      ((run urls selections calls).1.map (fun s => s.call.domain)))
    (hsame : ∀ s ∈ (run urls selections calls).1, s.call.domain = D →
      s.call.endpoints = E ∧ s.call.Weighs w) :
  ((domainTurns urls selections calls D).map slotOf).IsChain (allSlots E w).Succeeds ∧
    ∀ t ∈ domainTurns urls selections calls D, slotOf t ∈ allSlots E w
  := by
  have hslots : ∀ t ∈ domainTurns urls selections calls D, ∃ c, Turned t c ∧
      c.endpoints.map WeightedEndpoint.key = E.sort ∧ slots c.endpoints = allSlots E w ∧
      ∀ x ∈ c.endpoints, x.weight = w x.key := by
    intro t ht
    obtain ⟨hrun, hdomain, c, hc⟩ := mem_domainTurns ht
    obtain ⟨hE, hw⟩ := hsame t.picked hrun hdomain
    refine ⟨c, hc, ?_, ?_, fun x hx => hw.weight_eq hc.candidates hx⟩
    · rw [keys_weightedCandidates hc.candidates, hE]
    · rw [slots_eq hc.candidates hw, hE]
  constructor
  · rw [List.isChain_map]
    refine (isChain_domainTurns hfrequent).imp_of_mem_imp ?_
    intro a b ha hb hsees
    obtain ⟨c, hc, hkeys, _, hweights⟩ := hslots a ha
    obtain ⟨c', hc', hkeys', hslots', hweights'⟩ := hslots b hb
    obtain ⟨x, hx, hpicked, hcursor, hslot⟩ := hc.picked
    -- the endpoint that was selected before stands among the present ones, with the same weight
    have hmem : x.key ∈ c'.endpoints.map WeightedEndpoint.key := by
      rw [hkeys', ← hkeys]
      exact List.mem_map_of_mem hx
    obtain ⟨y, hy, hkey⟩ := List.mem_map.mp hmem
    have hidentity : endpointIdentity x.endpoint = endpointIdentity y.endpoint :=
      endpointIdentity_eq_iff.mpr hkey.symm
    have hless : a.cursor.slot < y.weight := by
      rw [hweights' y hy, hkey, ← hweights x hx]
      exact hslot
    have hnodup : (c'.endpoints.map WeightedEndpoint.key).Nodup := by
      rw [hkeys']
      exact E.sort_nodup _
    have hnext := nextWeightedChoice_succeeds hnodup hy hless
    rw [hcursor, hidentity] at hsees
    rw [← hc'.sees _ hsees] at hnext
    have hslotOf : slotOf a = (y.key, a.cursor.slot) := by
      rw [slotOf, hpicked, hkey]
      rfl
    rw [hslotOf, ← hslots']
    exact hnext
  · intro t ht
    obtain ⟨c, hc, _, hslots, _⟩ := hslots t ht
    obtain ⟨x, hx, hpicked, _, hslot⟩ := hc.picked
    rw [← hslots, slots, List.mem_flatMap]
    refine ⟨x, hx, List.mem_map.mpr ⟨t.cursor.slot, List.mem_range.mpr hslot, ?_⟩⟩
    rw [slotOf, hpicked]
    rfl

end

/-! ### Rows of selections -/

/-- Another endpoint comes after the last slot of an endpoint that is not the only one. -/
theorem key_next_ne {first : WeightedEndpoint urls} {rest before after : List (WeightedEndpoint urls)}
    {x : WeightedEndpoint urls} (hlist : first :: rest = before ++ x :: after)
    (hnodup : ((first :: rest).map WeightedEndpoint.key).Nodup)
    (hother : (first :: rest).map WeightedEndpoint.key ≠ [x.key]) :
  (after.head?.getD first).key ≠ x.key
  := by
  rw [hlist, List.map_append, List.map_cons] at hnodup hother
  obtain ⟨_, hcons, hdisjoint⟩ := List.nodup_append.mp hnodup
  match after with
  | y :: after =>
      intro heq
      apply (List.nodup_cons.mp hcons).1
      rw [← heq]
      exact List.mem_cons_self
  | [] =>
      match before with
      | [] => exact absurd rfl hother
      | y :: before =>
          obtain rfl : first = y := (List.cons.inj hlist).1
          exact hdisjoint _ List.mem_cons_self _ List.mem_cons_self

/-- An endpoint that is selected again, and is not the only one, is selected in its next slot. -/
theorem slot_succ {a b : WeightedTurn ε urls} {c' : WeightedCandidates urls} (ha : Turned a c)
    (hb : Turned b c') (hsees : b.Sees (some a.cursor))
    (hkey : a.picked.picked.key = b.picked.picked.key)
    (hother : b.picked.call.endpoints ≠ {b.picked.picked.key}) :
  b.cursor.slot = a.cursor.slot + 1
  := by
  obtain ⟨x, _, hpicked, hcursor, _⟩ := ha.picked
  obtain ⟨y, hy, hpicked', _, _⟩ := hb.picked
  have hidentity : endpointIdentity x.endpoint = endpointIdentity y.endpoint := by
    rw [endpointIdentity_eq_iff, ← hpicked, ← hpicked', hkey]
  have hkeys := keys_weightedCandidates hb.candidates
  have hnodup : (c'.endpoints.map WeightedEndpoint.key).Nodup := by
    rw [hkeys]
    exact Finset.sort_nodup _ _
  obtain ⟨before, after, hlist, hfind⟩ := findIdx?_identity hnodup hy
  have hchoice := hb.sees _ hsees
  rw [hcursor, hidentity, nextWeightedChoice_eq hlist hfind] at hchoice
  split at hchoice
  · rw [Prod.mk.injEq] at hchoice
    rw [hchoice.2]
  · exfalso
    rw [Prod.mk.injEq, hpicked'] at hchoice
    refine key_next_ne hlist hnodup ?_ (congrArg ServiceEndpoint.key hchoice.1).symm
    intro hsingle
    apply hother
    have hfinset := congrArg List.toFinset (hkeys.symm.trans hsingle)
    rw [Finset.sort_toFinset, List.toFinset_cons, List.toFinset_nil] at hfinset
    rw [hfinset, hpicked']
    rfl

/-- The slots of a row count its selections. -/
theorem slot_last {a : WeightedTurn ε urls} {turns : List (WeightedTurn ε urls)}
    (hturned : ∀ t ∈ a :: turns, ∃ c, Turned t c)
    (hchain : (a :: turns).IsChain (fun a b => b.Sees (some a.cursor)))
    (hkey : ∀ t ∈ a :: turns, t.picked.picked.key = k)
    (hother : ∀ t ∈ turns, t.picked.call.endpoints ≠ {k}) :
  ∀ t ∈ (a :: turns).getLast?, a.cursor.slot + turns.length ≤ t.cursor.slot
  := by
  induction turns generalizing a with
  | nil =>
      rintro t ⟨⟩
      exact le_rfl
  | cons b turns ih =>
      intro t ht
      rw [List.getLast?_cons_cons] at ht
      rw [List.isChain_cons_cons] at hchain
      obtain ⟨c, hc⟩ := hturned a List.mem_cons_self
      obtain ⟨c', hc'⟩ := hturned b (List.mem_cons_of_mem _ List.mem_cons_self)
      have hkeya := hkey a List.mem_cons_self
      have hkeyb := hkey b (List.mem_cons_of_mem _ List.mem_cons_self)
      have hslot := slot_succ hc hc' hchain.1 (hkeya.trans hkeyb.symm)
        (hkeyb.symm ▸ hother b List.mem_cons_self)
      have hlast := ih (fun t ht => hturned t (List.mem_cons_of_mem _ ht)) hchain.2
        (fun t ht => hkey t (List.mem_cons_of_mem _ ht))
        (fun t ht => hother t (List.mem_cons_of_mem _ ht)) t ht
      rw [List.length_cons]
      omega

/-- What a weighted selector guarantees after calls. -/
structure Proportional (urls : UrlParser) (selections : JsMap JsString WeightedCursor)
    (calls : List (WeightedCall ε urls)) : Prop where
  /-- While the endpoints of a domain and their weights stay the same, and fewer than 1,024 other
  domains are selected between its selections, as many selections as the weights add up to
  select each endpoint as often as its weight says. -/
  proportion : ∀ (D : Finset ServiceTuple) (E : Finset EndpointKey) (w : EndpointKey → ℕ),
    (∀ s ∈ (run urls selections calls).1, s.call.domain = D →
      s.call.endpoints = E ∧ s.call.Weighs w) →
    Frequent 1024 D ((run urls selections calls).1.map (fun s => s.call.domain)) →
    (domainSelections urls selections calls D).length = ∑ k ∈ E, w k →
    ∀ k ∈ E, ((domainSelections urls selections calls D).map (fun s => s.picked.key)).count k = w k
  /-- A call that throws leaves the cursors as they were. -/
  unchanged : ∀ (call : WeightedCall ε urls) (e : SelectorError ε),
    (select urls selections call).1 = .error e → (select urls selections call).2 = selections
  /-- In a row of selections of one endpoint, which is not the only one after the first of them,
  and between which fewer than 1,024 other domains are selected, the endpoint is not selected
  more often than its weight at the last of them says. -/
  limited : ∀ (D : Finset ServiceTuple) (k : EndpointKey),
    Frequent 1024 D ((run urls selections calls).1.map (fun s => s.call.domain)) →
    (∀ s ∈ domainSelections urls selections calls D, s.picked.key = k) →
    (∀ s ∈ (domainSelections urls selections calls D).tail, s.call.endpoints ≠ {k}) →
    ∀ s ∈ (domainSelections urls selections calls D).getLast?,
      (domainSelections urls selections calls D).length ≤ s.call.weightOf s.picked

/-- A weighted selector is proportional after whatever calls, during whatever calls. -/
theorem weightedRoundRobin_proportional (earlier calls : List (WeightedCall ε urls)) :
  Proportional urls (run urls .empty earlier).2 calls
  := by
  constructor
  case proportion =>
    intro D E w hsame hfrequent hlength k hk
    obtain ⟨hround, hmem⟩ := domainTurns_goRound hfrequent hsame
    rw [domainSelections_eq] at hlength ⊢
    rw [List.length_map] at hlength
    have hhead : ∀ p ∈ ((domainTurns urls (run urls .empty earlier).2 calls D).map slotOf).head?,
        p ∈ allSlots E w := by
      intro p hp
      obtain ⟨t, ht, rfl⟩ := List.mem_map.mp (List.mem_of_mem_head? hp)
      exact hmem t ht
    have hperm := List.perm_of_isChain (nodup_allSlots E w) hround hhead
      (by rw [List.length_map, hlength, length_allSlots])
    rw [← count_allSlots (w := w) hk, ← (hperm.map Prod.fst).count_eq, List.map_map, List.map_map]
    rfl
  case unchanged =>
    intro call e h
    rw [select] at h ⊢
    split
    · rfl
    · rename_i c hc
      rw [hc] at h
      cases h
  case limited =>
    intro D k hfrequent hkey hother s hs
    rw [domainSelections_eq] at hkey hother hs ⊢
    match hturns : domainTurns urls (run urls .empty earlier).2 calls D with
    | [] =>
        rw [hturns] at hs
        cases hs
    | a :: turns =>
        have hchain := isChain_domainTurns hfrequent
        rw [hturns] at hkey hother hs hchain
        have hturned : ∀ t ∈ a :: turns, ∃ c, Turned t c := by
          intro t ht
          rw [← hturns] at ht
          exact (mem_domainTurns ht).2.2
        rw [List.getLast?_map] at hs
        obtain ⟨t, ht, rfl⟩ := Option.map_eq_some_iff.mp hs
        have hlast := slot_last hturned hchain
          (fun t ht => hkey t.picked (List.mem_map_of_mem ht))
          (fun t ht => hother t.picked (List.mem_map_of_mem ht)) t ht
        obtain ⟨c, hc⟩ := hturned t (List.mem_of_getLast? ht)
        obtain ⟨x, hx, hpicked, _, hslot⟩ := hc.picked
        obtain ⟨_, _, _, _, hweights⟩ := weightedCandidates_eq_ok hc.candidates
        rw [List.length_map, List.length_cons, hpicked, ← hweights x hx]
        omega

/-! ### Rows of selections that exceed a weight -/

/-- A call with one instance, whose endpoints have the given weights. -/
def soleWeighted (x : ServiceInstance urls) (w : Endpoint urls → ℕ) : WeightedCall ε urls :=
  ⟨soleCall x, fun e => .number (.ofNat (w e.url))⟩

variable {w : Endpoint urls → ℕ} {x : ServiceInstance urls}

theorem weightedEndpoint_sole (v : Endpoint urls) (hpos : 0 < w v)
    (hle : w v ≤ JsNumber.MaxSafeInteger) :
  weightedEndpoint (soleWeighted x w : WeightedCall ε urls).weight ⟨x, v⟩ =
    .ok ⟨⟨x, v⟩, w v, hpos⟩
  := by
  rw [weightedEndpoint, soleWeighted]
  dsimp only
  rw [JsNumber.toSafeNat?_ofNat hle]
  exact dif_pos hpos

variable {u : Endpoint urls} {us : List (Endpoint urls)}

variable (ε) in
/-- The first candidate of a call with one instance. -/
theorem weightedCandidates_sole (h : x.endpoints = u :: us)
    (hw : ∀ v, 0 < w v ∧ w v ≤ JsNumber.MaxSafeInteger) :
  ∃ c, weightedCandidates urls (soleWeighted x w : WeightedCall ε urls) = .ok c ∧
    c.first.endpoint = ⟨x, u⟩
  := by
  have hrest : ∀ vs : List (Endpoint urls), ∃ xs,
      weightedEndpoints (soleWeighted x w : WeightedCall ε urls).weight
        (vs.map (fun v => ⟨x, v⟩)) = .ok xs := by
    intro vs
    induction vs with
    | nil => exact ⟨[], rfl⟩
    | cons v vs ih =>
        obtain ⟨xs, hxs⟩ := ih
        rw [List.map_cons, weightedEndpoints, weightedEndpoint_sole v (hw v).1 (hw v).2, hxs]
        exact ⟨_, rfl⟩
  obtain ⟨xs, hxs⟩ := hrest us
  have hcandidates : candidates urls (soleWeighted x w : WeightedCall ε urls).toSelectCall = _ :=
    candidates_sole h
  rw [weightedCandidates, hcandidates]
  refine ⟨⟨[x], ⟨⟨x, u⟩, w u, (hw u).1⟩, xs⟩, ?_, rfl⟩
  dsimp only [bind, Except.bind]
  rw [weightedEndpoint_sole u (hw u).1 (hw u).2, hxs]

/-- One endpoint is selected in a row, at last among others, more often than its weight says. -/
def Exceeds (calls : List (WeightedCall Unit anyUrls)) (D : Finset ServiceTuple)
    (k : EndpointKey) : Prop :=
  (∀ s ∈ domainSelections anyUrls .empty calls D, s.picked.key = k) ∧
    ∃ s ∈ (domainSelections anyUrls .empty calls D).getLast?,
      s.call.endpoints ≠ {k} ∧
        s.call.weightOf s.picked < (domainSelections anyUrls .empty calls D).length

theorem exceeds_of_map {calls : List (WeightedCall Unit anyUrls)} {D : Finset ServiceTuple}
    {n w : ℕ} {E : Finset EndpointKey}
    (hkeys : (domainSelections anyUrls .empty calls D).map (fun s => s.picked.key) = List.replicate n k)
    (hlast : (domainSelections anyUrls .empty calls D).getLast?.map (fun s => (s.call.endpoints, s.call.weightOf s.picked)) = some (E, w))
    (hE : E ≠ {k}) (hw : w < n) :
  Exceeds calls D k
  := by
  obtain ⟨s, hs, hpair⟩ := Option.map_eq_some_iff.mp hlast
  obtain ⟨rfl, rfl⟩ := Prod.mk.inj hpair
  constructor
  · intro s' hs'
    apply List.eq_of_mem_replicate
    rw [← hkeys]
    exact List.mem_map_of_mem hs'
  · refine ⟨s, hs, hE, ?_⟩
    have hlength := congrArg List.length hkeys
    rw [List.length_map, List.length_replicate] at hlength
    rw [hlength]
    exact hw

/-- The key of the first endpoint of a service. -/
def keyOne (n : ℕ) : EndpointKey := ServiceEndpoint.key ⟨alone n, endpointOne⟩

/-- The weights that are all the same. -/
def constantly (n : ℕ) : Endpoint anyUrls → ℕ := fun _ => n

theorem constantly_valid {n : ℕ} (hpos : 0 < n) (hle : n ≤ JsNumber.MaxSafeInteger)
    (v : Endpoint anyUrls) :
  0 < constantly n v ∧ constantly n v ≤ JsNumber.MaxSafeInteger
  := ⟨hpos, hle⟩

/-- An endpoint is selected while it is the only one, and once more when another one joins. -/
def joined : List (WeightedCall Unit anyUrls) :=
  List.replicate 3 (soleWeighted (alone 0) (constantly 2)) ++ [soleWeighted (pair 0) (constantly 2)]

theorem exceeds_joined :
  Exceeds joined {(alone 0).tuple} (keyOne 0)
  := by
  have hkeys : (domainSelections anyUrls .empty joined {(alone 0).tuple}).map
      (fun s => s.picked.key) = List.replicate 4 (keyOne 0) := by decide +kernel
  have hlast : (domainSelections anyUrls .empty joined {(alone 0).tuple}).getLast?.map
      (fun s => (s.call.endpoints, s.call.weightOf s.picked)) =
        some ({keyOne 0, ServiceEndpoint.key ⟨pair 0, endpointTwo⟩}, 2) := by decide +kernel
  exact exceeds_of_map hkeys hlast (by decide +kernel) (by decide)

theorem frequent_joined :
  Frequent 1024 {(alone 0).tuple}
    ((run anyUrls .empty joined).1.map (fun s => s.call.domain))
  := by
  have hdomains : (run anyUrls .empty joined).1.map (fun s => s.call.domain) =
      List.replicate 4 {(alone 0).tuple} := by decide +kernel
  rw [hdomains]
  exact frequent_of_forall (by decide) fun key hkey => List.eq_of_mem_replicate hkey

/-! ### A domain that is forgotten -/

/-- The selections of more calls. -/
theorem run_append (selections : JsMap JsString WeightedCursor)
    (calls calls' : List (WeightedCall ε urls)) :
  (run urls selections (calls ++ calls')).1 =
    (run urls selections calls).1 ++ (run urls (run urls selections calls).2 calls').1
  := by
  rw [run, selectAll_append]
  rfl

variable (ε) in
/-- A call with one service is a visit of its domain, which selects its first endpoint when the
domain is not remembered. -/
theorem visit?_sole (h : x.endpoints = u :: us)
    (hw : ∀ v, 0 < w v ∧ w v ≤ JsNumber.MaxSafeInteger) :
  ∃ y, visit? urls (soleWeighted x w : WeightedCall ε urls) = some y ∧
    y.key = domainText {x.tuple} ∧ (y.next none).1 = ⟨soleWeighted x w, ⟨x, u⟩⟩
  := by
  obtain ⟨c, hc, hfirst⟩ := weightedCandidates_sole ε h hw
  have hsome : ∃ y, visit? urls (soleWeighted x w : WeightedCall ε urls) = some y := by
    rw [visit?, hc]
    exact ⟨_, rfl⟩
  obtain ⟨y, hy⟩ := hsome
  obtain ⟨c', hc', rfl⟩ := visit?_eq_some hy
  obtain rfl := Except.ok.inj (hc.symm.trans hc')
  refine ⟨_, hy, ?_, ?_⟩
  · rw [WeightedCall.domain, soleWeighted, domain_sole]
  · rw [← hfirst]
    rfl

variable (ε) in
/-- The first endpoint is selected when the domain is not remembered. -/
theorem run_sole (h : x.endpoints = u :: us) (hw : ∀ v, 0 < w v ∧ w v ≤ JsNumber.MaxSafeInteger)
    (hnone : selections.get? (domainText {x.tuple}) = none) :
  (run urls selections [(soleWeighted x w : WeightedCall ε urls)]).1 =
    [⟨soleWeighted x w, ⟨x, u⟩⟩]
  := by
  obtain ⟨y, hy, hkey, hnext⟩ := visit?_sole ε h hw
  rw [run, visits.selectAll_eq, callTurns, List.filterMap_cons_some hy]
  rw [← hkey] at hnone
  change [(y.next (selections.get? y.key)).1] = _
  rw [hnone, hnext]

/-- The calls of other services. -/
def otherCalls : List (WeightedCall Unit anyUrls) :=
  (List.range 1024).map (fun n => soleWeighted (alone (n + 1)) (constantly 1))

/-- The weights of which the second one is 2. -/
def secondTwice : Endpoint anyUrls → ℕ := fun u => if u = endpointOne then 1 else 2

theorem secondTwice_valid (v : Endpoint anyUrls) :
  0 < secondTwice v ∧ secondTwice v ≤ JsNumber.MaxSafeInteger
  := by
  rw [secondTwice]
  split
  · decide
  · decide

/-- Other services are selected between two selections of a service. -/
def forgotten : List (WeightedCall Unit anyUrls) :=
  [soleWeighted (pair 0) (constantly 1)] ++ (otherCalls ++
    [soleWeighted (pair 0) secondTwice])

theorem keys_otherCalls :
  (otherCalls.filterMap (visit? anyUrls)).map Visit.key =
    (List.range 1024).map (fun n => domainText {(alone (n + 1)).tuple})
  := by
  rw [otherCalls]
  induction List.range 1024 with
  | nil => rfl
  | cons n ns ih =>
      obtain ⟨y, hy, hkey, _⟩ := visit?_sole Unit (x := alone (n + 1)) rfl
        (constantly_valid Nat.one_pos (by decide))
      rw [List.map_cons, List.map_cons, List.filterMap_cons_some hy, List.map_cons, hkey, ih]

theorem domainText_alone_injective :
  Function.Injective (fun n => domainText {(alone n).tuple})
  := by
  intro m n h
  have htuple := Finset.singleton_injective (domainText_injective h)
  have hname := congrArg (fun t => (ofLex t).1) htuple
  exact JsString.ofNat_injective hname

/-- A service is not remembered after selections of 1,024 others. -/
theorem forgets (hsize : selections.size ≤ maximumSelectionDomains) :
  domainSelections anyUrls selections otherCalls {(alone 0).tuple} = [] ∧
    (run anyUrls selections otherCalls).2.get? (domainText {(alone 0).tuple}) = none
  := by
  have hkeys : (callTurns (visit? anyUrls) selections otherCalls).map (fun t => t.visit.key) =
      (List.range 1024).map (fun n => domainText {(alone (n + 1)).tuple}) := by
    rw [callTurns, JsMap.keys_turns, keys_otherCalls]
  have hnew : domainText {(alone 0).tuple} ∉
      (callTurns (visit? anyUrls) selections otherCalls).map (fun t => t.visit.key) := by
    rw [hkeys]
    intro hmem
    obtain ⟨n, _, hn⟩ := List.mem_map.mp hmem
    exact absurd (domainText_alone_injective hn) n.succ_ne_zero
  constructor
  · rw [domainSelections_eq, domainTurns, List.map_eq_nil_iff, List.filter_eq_nil_iff]
    intro t ht hkey
    exact hnew (of_decide_eq_true hkey ▸ List.mem_map_of_mem ht)
  · rw [run, visits.selectAll_eq]
    have hnodup : ((callTurns (visit? anyUrls) selections otherCalls).map
        (fun t => t.visit.key)).Nodup := by
      rw [hkeys]
      exact List.nodup_range.map (domainText_alone_injective.comp (add_left_injective 1))
    have hlength := congrArg List.length hkeys
    rw [List.length_map, List.length_map, List.length_range] at hlength
    have hlimit : 0 < maximumSelectionDomains := by decide
    have hevicted := JsMap.get?_evicted hlimit hsize hnodup hlength hnew
    dsimp only
    rw [hevicted]

theorem selections_forgotten :
  domainSelections anyUrls .empty forgotten {(alone 0).tuple} =
    [⟨soleWeighted (pair 0) (constantly 1), ⟨pair 0, endpointOne⟩⟩,
      ⟨soleWeighted (pair 0) secondTwice, ⟨pair 0, endpointOne⟩⟩]
  := by
  let first : WeightedCall Unit anyUrls := soleWeighted (pair 0) (constantly 1)
  have hfirst : (run anyUrls .empty [first]).1 = [⟨first, ⟨pair 0, endpointOne⟩⟩] :=
    run_sole Unit rfl (constantly_valid Nat.one_pos (by decide)) rfl
  have hsize : (run anyUrls .empty [first]).2.size ≤ maximumSelectionDomains := by
    rw [run, visits.selectAll_eq]
    exact JsMap.size_afterTurns_le (by decide) (Nat.zero_le _) _
  obtain ⟨hothers, hnone⟩ := forgets hsize
  have hlast := run_sole Unit (x := pair 0) rfl secondTwice_valid hnone
  have hdomain : ∀ w, (soleWeighted (pair 0) w : WeightedCall Unit anyUrls).domain =
      {(alone 0).tuple} := fun w => domain_sole _
  rw [domainSelections] at hothers ⊢
  rw [forgotten, run_append, run_append, List.filter_append, List.filter_append, hfirst, hothers,
    hlast]
  simp only [List.filter_cons, hdomain, decide_true, if_true, List.filter_nil, List.nil_append]
  rfl

theorem exceeds_forgotten :
  Exceeds forgotten {(alone 0).tuple} (keyOne 0) ∧
    ∀ s ∈ domainSelections anyUrls .empty forgotten {(alone 0).tuple},
      s.call.endpoints ≠ {keyOne 0}
  := by
  have hendpoints : (soleCall (pair 0) : SelectCall Unit).endpoints anyUrls ≠ {keyOne 0} := by
    decide +kernel
  constructor
  · apply exceeds_of_map (n := 2) (w := 1)
    · rw [selections_forgotten]
      rfl
    · rw [selections_forgotten]
      have hweight : (soleWeighted (pair 0) secondTwice : WeightedCall Unit anyUrls).weightOf
          ⟨pair 0, endpointOne⟩ = 1 := by decide +kernel
      exact congrArg (fun w => some (_, w)) hweight
    · exact hendpoints
    · decide
  · rw [selections_forgotten]
    intro s hs
    obtain rfl | hs := List.mem_cons.mp hs
    · exact hendpoints
    · rw [List.mem_singleton.mp hs]
      exact hendpoints

/-- An endpoint that was the only one is selected more often in a row than its weight says when
another one joins, and so is the first endpoint of a domain that has been forgotten. -/
theorem weightedRoundRobin_exceeds :
  (∃ calls D k, Exceeds calls D k ∧
    Frequent 1024 D ((run anyUrls .empty calls).1.map (fun s => s.call.domain))) ∧
    ∃ calls D k, Exceeds calls D k ∧
      ∀ s ∈ domainSelections anyUrls .empty calls D, s.call.endpoints ≠ {k}
  := ⟨⟨joined, _, _, exceeds_joined, frequent_joined⟩, ⟨forgotten, _, _, exceeds_forgotten⟩⟩

end Registry.WeightedRoundRobin
