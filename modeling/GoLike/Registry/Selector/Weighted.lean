import GoLike.Lib.Rotation
import GoLike.Registry.Selector.Cursors

/-!
# Weighted round robin

A weighted selector asks for the weight of each endpoint at every selection, and selects an
endpoint as often in a row as its weight says. It remembers the endpoint that was selected last
in a domain, and how often in a row it had been selected before.
-/

open Store

namespace Registry.WeightedRoundRobin

variable {urls : UrlParser} {ε : Type}

/-! ### The selector -/

/-- What a weight callback does. -/
inductive WeightResult (ε : Type) where
  | number (value : JsNumber)
  /-- It returns something that is not a number. -/
  | other
  | throws (cause : ε)
  /-- It throws something that can be awaited. -/
  | throwsThenable

/-- The arguments of a selection, and what the weight callback does for each endpoint. -/
structure WeightedCall (ε : Type) (urls : UrlParser) where
  toSelectCall : SelectCall ε
  weight : ServiceEndpoint urls → WeightResult ε

/-- An endpoint with its weight. -/
structure WeightedEndpoint (urls : UrlParser) where
  endpoint : ServiceEndpoint urls
  weight : ℕ
  weight_pos : 0 < weight

/-- The endpoint that was selected last, and how often in a row it had been selected before. -/
structure WeightedCursor where
  identity : JsString
  slot : ℕ
  deriving DecidableEq

/-- The endpoint with the weight that the callback returns. -/
def weightedEndpoint (weight : ServiceEndpoint urls → WeightResult ε)
    (endpoint : ServiceEndpoint urls) : Except (SelectorError ε) (WeightedEndpoint urls) :=
  match weight endpoint with
  | .throws cause => .error (.thrown cause)
  | .throwsThenable => .error (.typeError "selector weight callback must be synchronous")
  | .other => .error (.typeError "selector weight must return a positive safe integer")
  | .number value =>
      match value.toSafeNat? with
      | none => .error (.typeError "selector weight must return a positive safe integer")
      | some n =>
          if h : 0 < n then .ok ⟨endpoint, n, h⟩
          else .error (.typeError "selector weight must return a positive safe integer")

/-- The endpoints with their weights. -/
def weightedEndpoints (weight : ServiceEndpoint urls → WeightResult ε) :
    List (ServiceEndpoint urls) → Except (SelectorError ε) (List (WeightedEndpoint urls))
  | [] => .ok []
  | endpoint :: endpoints => do
      let first ← weightedEndpoint weight endpoint
      let others ← weightedEndpoints weight endpoints
      .ok (first :: others)

/-- The first slot of an endpoint. -/
def firstSlot (candidate : WeightedEndpoint urls) : ServiceEndpoint urls × WeightedCursor :=
  (candidate.endpoint, ⟨endpointIdentity candidate.endpoint, 0⟩)

/-- The slot after the previous one. -/
def nextWeightedChoice (first : WeightedEndpoint urls) (rest : List (WeightedEndpoint urls))
    (previous : Option WeightedCursor) : ServiceEndpoint urls × WeightedCursor :=
  match previous with
  | none => firstSlot first
  | some previous =>
      match (first :: rest).findIdx? (fun candidate =>
          endpointIdentity candidate.endpoint = previous.identity) with
      | none => firstSlot first
      | some index =>
          let candidate := itemAt first rest index
          if previous.slot + 1 < candidate.weight then
            (candidate.endpoint, ⟨previous.identity, previous.slot + 1⟩)
          else firstSlot (itemAt first rest ((index + 1) % (first :: rest).length))

/-- The candidates of a call with their weights. -/
structure WeightedCandidates (urls : UrlParser) where
  snapshot : List (ServiceInstance urls)
  first : WeightedEndpoint urls
  rest : List (WeightedEndpoint urls)

def WeightedCandidates.endpoints (c : WeightedCandidates urls) : List (WeightedEndpoint urls) :=
  c.first :: c.rest

/-- The candidates of a call, when the weights are valid. -/
def weightedCandidates (urls : UrlParser) (call : WeightedCall ε urls) :
    Except (SelectorError ε) (WeightedCandidates urls) := do
  let c ← candidates urls call.toSelectCall
  let first ← weightedEndpoint call.weight c.first
  let rest ← weightedEndpoints call.weight c.rest
  .ok ⟨c.snapshot, first, rest⟩

/-- Select an endpoint. -/
def select (urls : UrlParser) (selections : JsMap JsString WeightedCursor)
    (call : WeightedCall ε urls) :
    Except (SelectorError ε) (ServiceEndpoint urls) × JsMap JsString WeightedCursor :=
  match weightedCandidates urls call with
  | .error e => (.error e, selections)
  | .ok c =>
      let domain := selectionDomain c.snapshot
      let choice := nextWeightedChoice c.first c.rest (selections.get? domain)
      (.ok choice.1, selections.remember maximumSelectionDomains domain choice.2)

/-- The selections of calls that succeed, and what is remembered. -/
def run (urls : UrlParser) (selections : JsMap JsString WeightedCursor)
    (calls : List (WeightedCall ε urls)) :
    List (Selection (WeightedCall ε urls) urls) × JsMap JsString WeightedCursor :=
  selectAll (select urls) selections calls

/-- The domain of a call. -/
def WeightedCall.domain (call : WeightedCall ε urls) : Finset ServiceTuple :=
  call.toSelectCall.domain urls

/-- The endpoints of a call. -/
def WeightedCall.endpoints (call : WeightedCall ε urls) : Finset EndpointKey :=
  call.toSelectCall.endpoints urls

/-- The weight of an endpoint at a call. -/
def WeightedCall.weightOf (call : WeightedCall ε urls) (endpoint : ServiceEndpoint urls) : ℕ :=
  match call.weight endpoint with
  | .number value => value.toSafeNat?.getD 0
  | _ => 0

/-! ### Candidates -/

variable {call : WeightedCall ε urls} {x : WeightedEndpoint urls}

theorem weightedEndpoint_eq_ok {e : ServiceEndpoint urls}
    (h : weightedEndpoint call.weight e = .ok x) :
  x.endpoint = e ∧ x.weight = call.weightOf e
  := by
  rw [weightedEndpoint] at h
  rw [WeightedCall.weightOf]
  split at h
  · cases h
  · cases h
  · cases h
  · rename_i value hvalue
    split at h
    · cases h
    · rename_i n hn
      split at h
      · cases h
        rw [hvalue]
        dsimp only
        rw [hn]
        exact ⟨rfl, rfl⟩
      · cases h

theorem weightedEndpoints_eq_ok {es : List (ServiceEndpoint urls)}
    {xs : List (WeightedEndpoint urls)} (h : weightedEndpoints call.weight es = .ok xs) :
  xs.map WeightedEndpoint.endpoint = es ∧ ∀ x ∈ xs, x.weight = call.weightOf x.endpoint
  := by
  induction es generalizing xs with
  | nil =>
      cases h
      exact ⟨rfl, fun x hx => absurd hx List.not_mem_nil⟩
  | cons e es ih =>
      rw [weightedEndpoints, bind_eq_ok] at h
      obtain ⟨x, hx, h⟩ := h
      rw [bind_eq_ok] at h
      obtain ⟨others, hothers, h⟩ := h
      cases h
      obtain ⟨hendpoint, hweight⟩ := weightedEndpoint_eq_ok hx
      obtain ⟨hendpoints, hweights⟩ := ih hothers
      constructor
      · rw [List.map_cons, hendpoint, hendpoints]
      · intro y hy
        obtain rfl | hy := List.mem_cons.mp hy
        · rw [hendpoint, hweight]
        · exact hweights y hy

theorem weightedCandidates_eq_ok {c : WeightedCandidates urls}
    (h : weightedCandidates urls call = .ok c) :
  ∃ c', candidates urls call.toSelectCall = .ok c' ∧ c.snapshot = c'.snapshot ∧
    c.endpoints.map WeightedEndpoint.endpoint = c'.endpoints ∧
    ∀ x ∈ c.endpoints, x.weight = call.weightOf x.endpoint
  := by
  rw [weightedCandidates, bind_eq_ok] at h
  obtain ⟨c', hc', h⟩ := h
  rw [bind_eq_ok] at h
  obtain ⟨first, hfirst, h⟩ := h
  rw [bind_eq_ok] at h
  obtain ⟨rest, hrest, h⟩ := h
  cases h
  obtain ⟨hendpoint, hweight⟩ := weightedEndpoint_eq_ok hfirst
  obtain ⟨hendpoints, hweights⟩ := weightedEndpoints_eq_ok hrest
  refine ⟨c', hc', rfl, ?_, ?_⟩
  · rw [WeightedCandidates.endpoints, List.map_cons, hendpoint, hendpoints]
    rfl
  · intro x hx
    obtain rfl | hx := List.mem_cons.mp hx
    · rw [hendpoint, hweight]
    · exact hweights x hx

/-- The key of a weighted endpoint. -/
def WeightedEndpoint.key (x : WeightedEndpoint urls) : EndpointKey := x.endpoint.key

/-- The weighted endpoints stand in the order of their keys. -/
theorem keys_weightedCandidates {c : WeightedCandidates urls}
    (h : weightedCandidates urls call = .ok c) :
  c.endpoints.map WeightedEndpoint.key = call.endpoints.sort
  := by
  obtain ⟨c', hc', _, hendpoints, _⟩ := weightedCandidates_eq_ok h
  have hkeys : c.endpoints.map WeightedEndpoint.key =
      (c.endpoints.map WeightedEndpoint.endpoint).map ServiceEndpoint.key := by
    rw [List.map_map]
    rfl
  rw [hkeys, hendpoints, keys_candidates hc']
  rfl

/-! ### Slots -/

/-- The slots of endpoints: each of them as often as its weight says. -/
def slots (xs : List (WeightedEndpoint urls)) : List (EndpointKey × ℕ) :=
  xs.flatMap (fun x => (List.range x.weight).map (fun slot => (x.key, slot)))

theorem slots_append (xs ys : List (WeightedEndpoint urls)) :
  slots (xs ++ ys) = slots xs ++ slots ys
  := List.flatMap_append

/-- The slots begin with the first slot of the first endpoint. -/
theorem slots_cons (x : WeightedEndpoint urls) (xs : List (WeightedEndpoint urls)) :
  ∃ others, slots (x :: xs) = (x.key, 0) :: others
  := by
  obtain ⟨n, hn⟩ := Nat.exists_eq_succ_of_ne_zero x.weight_pos.ne'
  rw [slots, List.flatMap_cons, hn, List.range_succ_eq_map]
  exact ⟨_, rfl⟩

variable {slot : ℕ}

/-- The slot after another one of the same endpoint. -/
theorem slots_same (before after : List (WeightedEndpoint urls)) (x : WeightedEndpoint urls)
    (h : slot + 1 < x.weight) :
  (slots (before ++ x :: after)).Succeeds (x.key, slot) (x.key, slot + 1)
  := by
  obtain ⟨n, hn⟩ := Nat.exists_eq_add_of_lt h
  have hrange : List.range x.weight =
      List.range slot ++ slot :: (slot + 1) :: (List.range n).map (fun i => slot + 2 + i) := by
    have hweight : x.weight = slot + (n + 2) := by omega
    rw [hweight, List.range_add, List.range_succ_eq_map, List.range_succ_eq_map]
    simp only [List.map_cons, List.map_map, List.append_cancel_left_eq, List.cons.injEq,
      Nat.add_zero, true_and]
    apply List.map_congr_left
    intro i _
    simp only [Function.comp_apply]
    omega
  have hslots : slots (before ++ x :: after) =
      (slots before ++ (List.range slot).map (fun i => (x.key, i))) ++
        (x.key, slot) :: (x.key, slot + 1) ::
          (((List.range n).map (fun i => slot + 2 + i)).map (fun i => (x.key, i)) ++
            slots after) := by
    rw [slots_append, slots, slots, List.flatMap_cons, hrange]
    simp only [List.map_append, List.map_cons, List.append_assoc, List.cons_append]
    rfl
  rw [hslots]
  exact List.succeeds_of_append _ _ _ _

/-- The slot after the last one of an endpoint is the first one of the next endpoint. -/
theorem slots_next (before after : List (WeightedEndpoint urls)) (x y : WeightedEndpoint urls)
    (h : slot + 1 = x.weight) :
  (slots (before ++ x :: y :: after)).Succeeds (x.key, slot) (y.key, 0)
  := by
  obtain ⟨others, hothers⟩ := slots_cons y after
  have hslots : slots (before ++ x :: y :: after) =
      (slots before ++ (List.range slot).map (fun i => (x.key, i))) ++
        (x.key, slot) :: (y.key, 0) :: others := by
    rw [slots_append, ← hothers, slots, slots, List.flatMap_cons, ← h, List.range_succ]
    simp only [List.map_append, List.map_cons, List.map_nil, List.append_assoc,
      List.singleton_append]
    rfl
  rw [hslots]
  exact List.succeeds_of_append _ _ _ _

variable {first : WeightedEndpoint urls}

/-- The slot after the last one of the last endpoint is the first one of the first endpoint. -/
theorem slots_wrap (xs : List (WeightedEndpoint urls)) (x : WeightedEndpoint urls)
    (hfirst : (xs ++ [x]).head? = some first) (h : slot + 1 = x.weight) :
  (slots (xs ++ [x])).Succeeds (x.key, slot) (first.key, 0)
  := by
  have hslots : slots (xs ++ [x]) =
      (slots xs ++ (List.range slot).map (fun i => (x.key, i))) ++ [(x.key, slot)] := by
    rw [slots_append, slots, slots, List.flatMap_singleton, ← h, List.range_succ, List.map_append,
      ← List.append_assoc]
    rfl
  have hhead : (slots (xs ++ [x])).head? = some (first.key, 0) := by
    obtain ⟨rest, hrest⟩ := List.head?_eq_some_iff.mp hfirst
    obtain ⟨others, hothers⟩ := slots_cons first rest
    rw [hrest, hothers]
    rfl
  rw [hslots] at hhead ⊢
  exact List.succeeds_of_last _ _ hhead

/-- An endpoint is found by its identity. -/
theorem findIdx?_identity {xs : List (WeightedEndpoint urls)}
    (hnodup : (xs.map WeightedEndpoint.key).Nodup) (hx : x ∈ xs) :
  ∃ before after, xs = before ++ x :: after ∧
    xs.findIdx? (fun candidate => endpointIdentity candidate.endpoint =
      endpointIdentity x.endpoint) = some before.length
  := by
  have hsome : (xs.findIdx? (fun candidate => endpointIdentity candidate.endpoint =
      endpointIdentity x.endpoint)).isSome = true := by
    rw [List.findIdx?_isSome, List.any_eq_true]
    exact ⟨x, hx, decide_eq_true rfl⟩
  obtain ⟨i, hfind⟩ := Option.isSome_iff_exists.mp hsome
  obtain ⟨hi, hidentity, _⟩ := List.findIdx?_eq_some_iff_getElem.mp hfind
  have hkey : xs[i].key = x.key := endpointIdentity_eq_iff.mp (of_decide_eq_true hidentity)
  have hxi : xs[i] = x := List.inj_on_of_nodup_map hnodup (List.getElem_mem hi) hx hkey
  use xs.take i
  use xs.drop (i + 1)
  constructor
  · rw [← hxi, ← List.drop_eq_getElem_cons hi, List.take_append_drop]
  · rw [List.length_take, Nat.min_eq_left hi.le]
    exact hfind

theorem itemAt_length {α : Type} {first : α} {rest before after : List α} {x : α}
    (h : first :: rest = before ++ x :: after) :
  itemAt first rest before.length = x
  := by
  rw [itemAt, h, List.getElem?_append_right le_rfl, Nat.sub_self]
  rfl

/-- What is chosen after a slot of an endpoint. -/
theorem nextWeightedChoice_eq {rest before after : List (WeightedEndpoint urls)}
    (hlist : first :: rest = before ++ x :: after)
    (hfind : (first :: rest).findIdx? (fun candidate => endpointIdentity candidate.endpoint = endpointIdentity x.endpoint) = some before.length)
    (slot : ℕ) :
  nextWeightedChoice first rest (some ⟨endpointIdentity x.endpoint, slot⟩) =
    if slot + 1 < x.weight then (x.endpoint, ⟨endpointIdentity x.endpoint, slot + 1⟩)
    else firstSlot (after.head?.getD first)
  := by
  have hitem := itemAt_length hlist
  rw [nextWeightedChoice, hfind]
  dsimp only
  rw [hitem]
  split
  · rfl
  · congr 1
    have hlength : (first :: rest).length = before.length + 1 + after.length := by
      rw [hlist, List.length_append, List.length_cons]
      omega
    match after with
    | [] =>
        rw [hlength, List.length_nil, Nat.add_zero, Nat.mod_self]
        rfl
    | y :: after =>
        have hless : before.length + 1 < (first :: rest).length := by
          rw [hlength, List.length_cons]
          omega
        rw [Nat.mod_eq_of_lt hless]
        have hnext : first :: rest = (before ++ [x]) ++ y :: after := by
          rw [hlist, List.append_assoc, List.singleton_append]
        have hat := itemAt_length hnext
        rw [List.length_append, List.length_singleton] at hat
        exact hat

/-- The next choice is the slot after the previous one. -/
theorem nextWeightedChoice_succeeds {rest : List (WeightedEndpoint urls)}
    (hnodup : ((first :: rest).map WeightedEndpoint.key).Nodup) (hx : x ∈ first :: rest)
    (hslot : slot < x.weight) :
  (slots (first :: rest)).Succeeds (x.key, slot)
    ((nextWeightedChoice first rest (some ⟨endpointIdentity x.endpoint, slot⟩)).1.key,
      (nextWeightedChoice first rest (some ⟨endpointIdentity x.endpoint, slot⟩)).2.slot)
  := by
  obtain ⟨before, after, hlist, hfind⟩ := findIdx?_identity hnodup hx
  rw [nextWeightedChoice_eq hlist hfind]
  split
  · rename_i hmore
    rw [hlist]
    exact slots_same before after x hmore
  · rename_i hlast
    have hlast : slot + 1 = x.weight := by omega
    match after with
    | [] =>
        rw [hlist]
        exact slots_wrap before x (by rw [← hlist]; rfl) hlast
    | y :: after =>
        rw [hlist]
        exact slots_next before after x y hlast

/-- What is chosen is a slot of the present weights, whatever was chosen before. -/
theorem nextWeightedChoice_mem (first : WeightedEndpoint urls)
    (rest : List (WeightedEndpoint urls)) (previous : Option WeightedCursor) :
  ∃ x ∈ first :: rest, (nextWeightedChoice first rest previous).1 = x.endpoint ∧
    (nextWeightedChoice first rest previous).2.identity = endpointIdentity x.endpoint ∧
    (nextWeightedChoice first rest previous).2.slot < x.weight
  := by
  have hfirst : ∀ x ∈ first :: rest, ∃ y ∈ first :: rest, (firstSlot x).1 = y.endpoint ∧
      (firstSlot x).2.identity = endpointIdentity y.endpoint ∧ (firstSlot x).2.slot < y.weight :=
    fun x hx => ⟨x, hx, rfl, rfl, x.weight_pos⟩
  match previous with
  | none => exact hfirst first List.mem_cons_self
  | some previous =>
      rw [nextWeightedChoice]
      split
      · exact hfirst first List.mem_cons_self
      · rename_i i hfind
        obtain ⟨hi, hidentity, _⟩ := List.findIdx?_eq_some_iff_getElem.mp hfind
        dsimp only
        split
        · rename_i hmore
          have hitem : itemAt first rest i = (first :: rest)[i] := by
            rw [itemAt, List.getElem?_eq_getElem hi, Option.getD_some]
          have hprevious : previous.identity = endpointIdentity (itemAt first rest i).endpoint := by
            rw [hitem]
            exact (of_decide_eq_true hidentity).symm
          exact ⟨itemAt first rest i, itemAt_mem first rest i, rfl, hprevious, hmore⟩
        · exact hfirst _ (itemAt_mem _ _ _)

end Registry.WeightedRoundRobin
