import GoLike.Lib.RecentMap
import GoLike.Registry.Selector.Endpoints

/-!
# Selections with cursors

A selector remembers a cursor for each of the domains that were used last. A call that fails
leaves the cursors as they were; a call that succeeds is a visit of its domain.
-/

open Store

namespace Registry

variable {urls : UrlParser} {ε χ ν σ : Type}

/-- The number of domains that are remembered. -/
def maximumSelectionDomains : ℕ := 1024

/-! ### Calls -/

/-- What a selector throws. -/
inductive SelectorError (ε : Type) where
  /-- What the context or a callback has thrown. -/
  | thrown (cause : ε)
  | registry (error : RegistryError)
  | noAvailableEndpoint
  | typeError (message : String)
  deriving DecidableEq

/-- The arguments of a selection. -/
structure SelectCall (ε : Type) where
  /-- Why the context has ended. -/
  failure : Option ε
  instances : List ServiceInstanceInput

/-- The endpoints that a call is given with their snapshot, which are one at least. -/
structure Candidates (urls : UrlParser) where
  snapshot : List (ServiceInstance urls)
  first : ServiceEndpoint urls
  rest : List (ServiceEndpoint urls)

/-- The candidates, in order. -/
def Candidates.endpoints (c : Candidates urls) : List (ServiceEndpoint urls) := c.first :: c.rest

/-- The candidates of a call. -/
def candidates (urls : UrlParser) (call : SelectCall ε) :
    Except (SelectorError ε) (Candidates urls) :=
  match call.failure with
  | some cause => .error (.thrown cause)
  | none =>
      match copySnapshot urls call.instances with
      | .error e => .error (.registry e)
      | .ok snapshot =>
          match serviceEndpoints snapshot with
          | [] => .error .noAvailableEndpoint
          | first :: rest => .ok ⟨snapshot, first, rest⟩

theorem candidates_eq_ok {call : SelectCall ε} {c : Candidates urls} :
  candidates urls call = .ok c ↔
    call.failure = none ∧ copySnapshot urls call.instances = .ok c.snapshot ∧
      serviceEndpoints c.snapshot = c.endpoints
  := by
  rw [candidates]
  constructor
  · intro h
    split at h
    · cases h
    · rename_i hfailure
      split at h
      · cases h
      · rename_i snapshot hcopy
        split at h
        · cases h
        · rename_i first rest hendpoints
          cases h
          exact ⟨hfailure, hcopy, hendpoints⟩
  · rintro ⟨hfailure, hcopy, hendpoints⟩
    rw [hfailure]
    dsimp only
    rw [hcopy]
    dsimp only
    rw [hendpoints]
    rfl

/-- The candidates do not depend on the order of the instances. -/
theorem candidates_perm {call call' : SelectCall ε} (hfailure : call.failure = call'.failure)
    (hperm : call.instances.Perm call'.instances) {c : Candidates urls}
    (hc : candidates urls call = .ok c) :
  candidates urls call' = .ok c
  := by
  obtain ⟨hnone, hcopy, hendpoints⟩ := candidates_eq_ok.mp hc
  exact candidates_eq_ok.mpr ⟨hfailure ▸ hnone, copySnapshot_perm hperm hcopy, hendpoints⟩

/-- The item at an index, the first one if there is none. -/
def itemAt {α : Type} (first : α) (rest : List α) (index : ℕ) : α :=
  ((first :: rest)[index]?).getD first

theorem itemAt_mem {α : Type} (first : α) (rest : List α) (index : ℕ) :
  itemAt first rest index ∈ first :: rest
  := by
  rw [itemAt]
  match h : (first :: rest)[index]? with
  | none => exact List.mem_cons_self
  | some item => exact List.mem_of_getElem? h

theorem getElem?_itemAt {α : Type} {first : α} {rest : List α} {index : ℕ}
    (h : index < (first :: rest).length) :
  (first :: rest)[index]? = some (itemAt first rest index)
  := by
  rw [itemAt, List.getElem?_eq_getElem h]
  rfl

/-! ### Selections -/

/-- A selection that has succeeded. -/
structure Selection (χ : Type) (urls : UrlParser) where
  call : χ
  picked : ServiceEndpoint urls

/-- The selections of calls that succeed, and what is remembered after them. -/
def selectAll (select : σ → χ → Except (SelectorError ε) (ServiceEndpoint urls) × σ)
    (selections : σ) : List χ → List (Selection χ urls) × σ
  | [] => ([], selections)
  | call :: calls =>
      let outcome := select selections call
      let others := selectAll select outcome.2 calls
      ((outcome.1.toOption.map (fun picked => ⟨call, picked⟩)).toList ++ others.1, others.2)

theorem selectAll_append {χ σ : Type}
    (select : σ → χ → Except (SelectorError ε) (ServiceEndpoint urls) × σ) (selections : σ)
    (calls calls' : List χ) :
  selectAll select selections (calls ++ calls') =
    ((selectAll select selections calls).1 ++
        (selectAll select (selectAll select selections calls).2 calls').1,
      (selectAll select (selectAll select selections calls).2 calls').2)
  := by
  induction calls generalizing selections with
  | nil => rfl
  | cons call calls ih =>
      rw [List.cons_append, selectAll, ih, selectAll]
      simp only [List.append_assoc]

/-- The snapshot of the instances of a call. -/
def SelectCall.snapshot (urls : UrlParser) (call : SelectCall ε) : List (ServiceInstance urls) :=
  (copySnapshot urls call.instances).toOption.getD []

/-- The domain of a call: the names and versions of its instances. -/
def SelectCall.domain (urls : UrlParser) (call : SelectCall ε) : Finset ServiceTuple :=
  serviceTuples (call.snapshot urls)

/-- The endpoints of a call. -/
def SelectCall.endpoints (urls : UrlParser) (call : SelectCall ε) : Finset EndpointKey :=
  (endpointKeys (call.snapshot urls)).toFinset

theorem SelectCall.snapshot_eq {call : SelectCall ε} {c : Candidates urls}
    (h : candidates urls call = .ok c) :
  call.snapshot urls = c.snapshot
  := by
  rw [SelectCall.snapshot, (candidates_eq_ok.mp h).2.1]
  rfl

/-- The candidates stand in the order of their keys. -/
theorem keys_candidates {call : SelectCall ε} {c : Candidates urls}
    (h : candidates urls call = .ok c) :
  c.endpoints.map ServiceEndpoint.key = (call.endpoints urls).sort
  := by
  obtain ⟨_, hcopy, hendpoints⟩ := candidates_eq_ok.mp h
  rw [SelectCall.endpoints, SelectCall.snapshot_eq h, ← endpointKeys_eq_sort hcopy, endpointKeys,
    hendpoints]

/-! ### Turns of a domain -/

/-- The calls that succeed are visits of their domains. -/
structure Visits (select : JsMap JsString ν → χ →
      Except (SelectorError ε) (ServiceEndpoint urls) × JsMap JsString ν)
    (visit? : χ → Option (Visit JsString ν (Selection χ urls))) : Prop where
  fails : ∀ s call, visit? call = none → ∃ e, select s call = (.error e, s)
  succeeds : ∀ s call x, visit? call = some x → (s.turn x).picked.call = call ∧
    select s call =
      (.ok (s.turn x).picked.picked, s.afterTurn maximumSelectionDomains (s.turn x))

/-- The turns of calls. -/
def callTurns (visit? : χ → Option (Visit JsString ν (Selection χ urls)))
    (selections : JsMap JsString ν) (calls : List χ) :
    List (Turn JsString ν (Selection χ urls)) :=
  selections.turns maximumSelectionDomains (calls.filterMap visit?)

/-- The selections of calls are the turns of their visits. -/
theorem Visits.selectAll_eq {select : JsMap JsString ν → χ →
      Except (SelectorError ε) (ServiceEndpoint urls) × JsMap JsString ν}
    {visit? : χ → Option (Visit JsString ν (Selection χ urls))} (h : Visits select visit?)
    (selections : JsMap JsString ν) (calls : List χ) :
  selectAll select selections calls =
    ((callTurns visit? selections calls).map Turn.picked,
      selections.afterTurns maximumSelectionDomains (callTurns visit? selections calls))
  := by
  induction calls generalizing selections with
  | nil => rfl
  | cons call calls ih =>
      rw [selectAll, ih]
      match hvisit : visit? call with
      | none =>
          obtain ⟨e, he⟩ := h.fails selections call hvisit
          rw [callTurns, callTurns, List.filterMap_cons_none hvisit, he]
          rfl
      | some x =>
          obtain ⟨hcall, hselect⟩ := h.succeeds selections call x hvisit
          rw [callTurns, callTurns, List.filterMap_cons_some hvisit, hselect, JsMap.turns]
          have hpicked : (⟨call, (selections.turn x).picked.picked⟩ : Selection χ urls) =
              (selections.turn x).picked := by
            rw [← hcall]
          dsimp only [Except.toOption, Option.map_some, Option.toList_some]
          rw [hpicked]
          rfl

section

variable {dom : χ → Finset ServiceTuple} {turns : List (Turn JsString ν (Selection χ urls))}

/-- The selections of a domain are the turns of its text. -/
theorem filter_turns (h : ∀ t ∈ turns, t.visit.key = domainText (dom t.picked.call))
    (D : Finset ServiceTuple) :
  (turns.map Turn.picked).filter (fun s => dom s.call = D) =
    (turns.filter (fun t => t.visit.key = domainText D)).map Turn.picked
  := by
  rw [List.filter_map]
  congr 1
  apply List.filter_congr
  intro t ht
  rw [Function.comp_apply, h t ht]
  exact decide_eq_decide.mpr domainText_injective.eq_iff.symm

/-- Domains that stand near one another have texts that do. -/
theorem frequent_turns {limit : ℕ}
    (h : ∀ t ∈ turns, t.visit.key = domainText (dom t.picked.call)) {D : Finset ServiceTuple}
    (hfrequent : Frequent limit D ((turns.map Turn.picked).map (fun s => dom s.call))) :
  Frequent limit (domainText D) (turns.map (fun t => t.visit.key))
  := by
  have hkeys : turns.map (fun t => t.visit.key) =
      ((turns.map Turn.picked).map (fun s => dom s.call)).map domainText := by
    rw [List.map_map, List.map_map]
    exact List.map_congr_left h
  rw [hkeys]
  exact hfrequent.map domainText_injective

end

/-! ### Calls with one instance -/

/-- A call with one instance. -/
def soleCall (x : ServiceInstance urls) : SelectCall ε := ⟨none, [x.toInput]⟩

theorem candidates_sole {x : ServiceInstance urls} {u : Endpoint urls} {us : List (Endpoint urls)}
    (h : x.endpoints = u :: us) :
  candidates urls (soleCall x : SelectCall ε) =
    .ok ⟨[x], ⟨x, u⟩, us.map (fun v => ⟨x, v⟩)⟩
  := by
  rw [candidates_eq_ok]
  refine ⟨rfl, copySnapshot_sole x, ?_⟩
  rw [serviceEndpoints, List.flatMap_singleton, h]
  rfl

theorem domain_sole (x : ServiceInstance urls) :
  (soleCall x : SelectCall ε).domain urls = {x.tuple}
  := by
  rw [SelectCall.domain, SelectCall.snapshot, soleCall, copySnapshot_sole]
  rfl

end Registry
