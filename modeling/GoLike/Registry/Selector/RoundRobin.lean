import GoLike.Lib.Rotation
import GoLike.Registry.Selector.Cursors

/-!
# Round robin

A round-robin selector remembers the endpoint that was selected last in a domain, and selects
the one after it. In a domain whose endpoints stay the same, each of them is selected once before
any is selected again.
-/

open Store

namespace Registry

variable {urls : UrlParser} {ε : Type}

namespace RoundRobin

/-! ### The selector -/

/-- The index of the endpoint after the previous one. -/
def nextEndpointIndex (endpoints : List (ServiceEndpoint urls)) (previous : Option JsString) : ℕ :=
  match previous with
  | none => 0
  | some previous =>
      match endpoints.findIdx? (fun endpoint => endpointIdentity endpoint = previous) with
      | none => 0
      | some index => (index + 1) % endpoints.length

/-- The endpoint that is selected, and what is remembered. -/
def choose (c : Candidates urls) (previous : Option JsString) : ServiceEndpoint urls × JsString :=
  let endpoint := itemAt c.first c.rest (nextEndpointIndex c.endpoints previous)
  (endpoint, endpointIdentity endpoint)

/-- Select an endpoint. -/
def select (urls : UrlParser) (selections : JsMap JsString JsString) (call : SelectCall ε) :
    Except (SelectorError ε) (ServiceEndpoint urls) × JsMap JsString JsString :=
  match candidates urls call with
  | .error e => (.error e, selections)
  | .ok c =>
      let domain := selectionDomain c.snapshot
      let choice := choose c (selections.get? domain)
      (.ok choice.1, selections.remember maximumSelectionDomains domain choice.2)

/-- The selections of calls that succeed, and what is remembered. -/
def run (urls : UrlParser) (selections : JsMap JsString JsString) (calls : List (SelectCall ε)) :
    List (Selection (SelectCall ε) urls) × JsMap JsString JsString :=
  selectAll (select urls) selections calls

/-! ### Selections are turns -/

/-- The visit of the domain of a call. -/
def visit? (urls : UrlParser) (call : SelectCall ε) :
    Option (Visit JsString JsString (Selection (SelectCall ε) urls)) :=
  match candidates urls call with
  | .error _ => none
  | .ok c =>
      some ⟨selectionDomain c.snapshot, fun o => (⟨call, (choose c o).1⟩, (choose c o).2)⟩

theorem visit?_eq_some {call : SelectCall ε}
    {x : Visit JsString JsString (Selection (SelectCall ε) urls)}
    (h : visit? urls call = some x) :
  ∃ c, candidates urls call = .ok c ∧ x = ⟨domainText (call.domain urls),
    fun o => (⟨call, (choose c o).1⟩, (choose c o).2)⟩
  := by
  rw [visit?] at h
  split at h
  · cases h
  · rename_i c hc
    cases h
    use c, hc
    rw [selectionDomain_eq, SelectCall.domain, SelectCall.snapshot_eq hc]

theorem visits : Visits (select urls) (visit? urls : SelectCall ε → _)
  := by
  constructor
  case fails =>
    intro s call h
    rw [visit?] at h
    split at h
    · rename_i e hc
      exact ⟨e, by rw [select, hc]⟩
    · cases h
  case succeeds =>
    intro s call x h
    rw [visit?] at h
    split at h
    · cases h
    · rename_i c hc
      cases h
      exact ⟨rfl, by rw [select, hc]; rfl⟩

/-- A turn is that of a call, in its domain. -/
theorem turn_call {selections : JsMap JsString JsString} {calls : List (SelectCall ε)}
    {t : Turn JsString JsString (Selection (SelectCall ε) urls)}
    (h : t ∈ callTurns (visit? urls) selections calls) :
  ∃ c, candidates urls t.picked.call = .ok c ∧
    t.visit.key = domainText (t.picked.call.domain urls) ∧
    t.picked.picked ∈ c.endpoints ∧ t.cursor = endpointIdentity t.picked.picked ∧
    ∀ o, t.Sees o → t.picked.picked = (choose c o).1
  := by
  obtain ⟨hvisit, o, hsees⟩ := JsMap.mem_turns h
  obtain ⟨call, _, hcall⟩ := List.mem_filterMap.mp hvisit
  obtain ⟨c, hc, hx⟩ := visit?_eq_some hcall
  obtain ⟨visit, ⟨call', picked⟩, cursor⟩ := t
  obtain rfl : visit = _ := hx
  have hpair : ((⟨call, (choose c o).1⟩ : Selection (SelectCall ε) urls), (choose c o).2) =
      (⟨call', picked⟩, cursor) := hsees
  rw [Prod.mk.injEq, Selection.mk.injEq] at hpair
  obtain ⟨⟨rfl, rfl⟩, rfl⟩ := hpair
  refine ⟨c, hc, rfl, itemAt_mem _ _ _, rfl, ?_⟩
  intro o' hsees'
  have hpair' : ((⟨call, (choose c o').1⟩ : Selection (SelectCall ε) urls), (choose c o').2) =
      (⟨call, (choose c o).1⟩, (choose c o).2) := hsees'
  rw [Prod.mk.injEq, Selection.mk.injEq] at hpair'
  exact hpair'.1.2.symm

/-! ### The rotation -/

/-- The endpoint after the previous one is selected. -/
theorem choose_succeeds {call : SelectCall ε} {c : Candidates urls}
    (hc : candidates urls call = .ok c) {e : ServiceEndpoint urls}
    (he : e.key ∈ call.endpoints urls) :
  (call.endpoints urls).sort.Succeeds e.key (choose c (some (endpointIdentity e))).1.key
  := by
  have hkeys := keys_candidates hc
  match hfind : c.endpoints.findIdx? (fun endpoint => endpointIdentity endpoint =
      endpointIdentity e) with
  | none =>
      rw [← Finset.mem_sort (· ≤ ·), ← hkeys] at he
      obtain ⟨e', he', hkey⟩ := List.mem_map.mp he
      have hnot := List.findIdx?_eq_none_iff.mp hfind e' he'
      rw [decide_eq_false_iff_not] at hnot
      exact absurd (endpointIdentity_eq_iff.mpr hkey) hnot
  | some i =>
      obtain ⟨hi, hidentity, _⟩ := List.findIdx?_eq_some_iff_getElem.mp hfind
      have hkey : c.endpoints[i].key = e.key :=
        endpointIdentity_eq_iff.mp (of_decide_eq_true hidentity)
      have hindex : nextEndpointIndex c.endpoints (some (endpointIdentity e)) =
          (i + 1) % c.endpoints.length := by
        rw [nextEndpointIndex, hfind]
      have hless : (i + 1) % c.endpoints.length < c.endpoints.length :=
        Nat.mod_lt _ (Nat.zero_lt_of_lt hi)
      rw [← hkeys, choose, hindex]
      refine ⟨i, ?_, ?_⟩
      · rw [List.getElem?_map, List.getElem?_eq_getElem hi, Option.map_some, hkey]
      · rw [List.getElem?_map, List.length_map]
        exact congrArg (Option.map ServiceEndpoint.key) (getElem?_itemAt hless)

/-- The endpoints that are selected in a domain go round its endpoints. -/
theorem run_goesRound (selections : JsMap JsString JsString) (calls : List (SelectCall ε))
    {D : Finset ServiceTuple} {E : Finset EndpointKey}
    (hfrequent : Frequent maximumSelectionDomains D
      ((run urls selections calls).1.map (fun s => s.call.domain urls)))
    (hsame : ∀ s ∈ (run urls selections calls).1, s.call.domain urls = D →
      s.call.endpoints urls = E) :
  (((run urls selections calls).1.filter (fun s => s.call.domain urls = D)).map
    (fun s => s.picked.key)).IsChain E.sort.Succeeds
  := by
  have hkeys : ∀ t ∈ callTurns (visit? urls) selections calls,
      t.visit.key = domainText (t.picked.call.domain urls) := by
    intro t ht
    obtain ⟨_, _, hkey, _⟩ := turn_call ht
    exact hkey
  rw [run, visits.selectAll_eq] at hfrequent hsame ⊢
  rw [filter_turns hkeys, List.map_map, List.isChain_map]
  have htexts := frequent_turns hkeys hfrequent
  rw [callTurns, JsMap.keys_turns] at htexts
  refine (JsMap.isChain_turns htexts).imp_of_mem_imp ?_
  intro a b ha hb hsees
  obtain ⟨ha, hdomain⟩ := List.mem_filter.mp ha
  obtain ⟨hb, hdomain'⟩ := List.mem_filter.mp hb
  obtain ⟨c, hc, hkey, hmem, hcursor, _⟩ := turn_call ha
  obtain ⟨c', hc', hkey', _, _, hchoice⟩ := turn_call hb
  have hD : a.picked.call.domain urls = D :=
    domainText_injective (hkey.symm.trans (of_decide_eq_true hdomain))
  have hD' : b.picked.call.domain urls = D :=
    domainText_injective (hkey'.symm.trans (of_decide_eq_true hdomain'))
  have hE := hsame a.picked (List.mem_map_of_mem ha) hD
  have hE' := hsame b.picked (List.mem_map_of_mem hb) hD'
  have hin : a.picked.picked.key ∈ b.picked.call.endpoints urls := by
    rw [hE', ← hE, ← Finset.mem_sort (· ≤ ·), ← keys_candidates hc]
    exact List.mem_map_of_mem hmem
  have hnext := choose_succeeds hc' hin
  rw [hcursor] at hsees
  rw [← hchoice _ hsees, hE'] at hnext
  exact hnext

theorem picked_mem (selections : JsMap JsString JsString) (calls : List (SelectCall ε))
    {s : Selection (SelectCall ε) urls} (h : s ∈ (run urls selections calls).1) :
  s.picked.key ∈ s.call.endpoints urls
  := by
  rw [run, visits.selectAll_eq] at h
  obtain ⟨t, ht, rfl⟩ := List.mem_map.mp h
  obtain ⟨c, hc, _, hmem, _⟩ := turn_call ht
  rw [← Finset.mem_sort (· ≤ ·), ← keys_candidates hc]
  exact List.mem_map_of_mem hmem

/-- What a round-robin selector guarantees after calls. -/
structure Fair (urls : UrlParser) (selections : JsMap JsString JsString)
    (calls : List (SelectCall ε)) : Prop where
  /-- No more than 1,024 domains are remembered. -/
  bounded : selections.size ≤ 1024
  /-- In a domain whose endpoints stay the same, and between whose selections fewer than 1,024
  other domains are selected, as many selections as there are endpoints select each of them
  once. -/
  each_once : ∀ (D : Finset ServiceTuple) (E : Finset EndpointKey),
    (∀ s ∈ (run urls selections calls).1, s.call.domain urls = D → s.call.endpoints urls = E) →
    Frequent 1024 D ((run urls selections calls).1.map (fun s => s.call.domain urls)) →
    let picks := ((run urls selections calls).1.filter (fun s => s.call.domain urls = D)).map
      (fun s => s.picked.key)
    picks.length = E.card → picks.Nodup ∧ picks.toFinset = E
  /-- The order of the instances makes no difference. -/
  reordered : ∀ call call' : SelectCall ε, call.failure = call'.failure →
    call.instances.Perm call'.instances →
    (select urls selections call).1.toOption = (select urls selections call').1.toOption ∧
      (select urls selections call).2 = (select urls selections call').2

/-- A round-robin selector is fair after whatever calls, during whatever calls. -/
theorem roundRobin_fair (earlier calls : List (SelectCall ε)) :
  Fair urls (run urls .empty earlier).2 calls
  := by
  constructor
  case bounded =>
    rw [run, visits.selectAll_eq]
    exact JsMap.size_afterTurns_le (by decide) (Nat.zero_le _) _
  case each_once =>
    intro D E hsame hfrequent picks hlength
    have hround : picks.IsChain E.sort.Succeeds := run_goesRound _ _ hfrequent hsame
    have hhead : ∀ k ∈ picks.head?, k ∈ E.sort := by
      intro k hk
      obtain ⟨s, hs, rfl⟩ := List.mem_map.mp (List.mem_of_mem_head? hk)
      obtain ⟨hs, hdomain⟩ := List.mem_filter.mp hs
      rw [Finset.mem_sort, ← hsame s hs (of_decide_eq_true hdomain)]
      exact picked_mem _ _ hs
    have hperm : picks.Perm E.sort := by
      apply List.perm_of_isChain (E.sort_nodup _) hround hhead
      rw [Finset.length_sort, hlength]
    constructor
    · exact hperm.nodup_iff.mpr (E.sort_nodup _)
    · rw [List.toFinset_eq_of_perm _ _ hperm, Finset.sort_toFinset]
  case reordered =>
    intro call call' hfailure hperm
    match hc : candidates urls call, hc' : candidates urls call' with
    | .ok c, _ =>
        rw [select, select, hc, candidates_perm hfailure hperm hc]
        exact ⟨rfl, rfl⟩
    | .error e, .ok c' =>
        have hc'' := candidates_perm hfailure.symm hperm.symm hc'
        rw [hc] at hc''
        cases hc''
    | .error e, .error e' =>
        rw [select, select, hc, hc']
        exact ⟨rfl, rfl⟩

end RoundRobin

end Registry
