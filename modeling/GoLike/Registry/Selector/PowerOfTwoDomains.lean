import GoLike.Registry.Selector.PowerOfTwoBooks

/-!
# The domains of power of two choices

A domain is kept with the states of its endpoints until it is evicted. A selection adds its domain
when it begins, and makes it the newest one when it ends.
-/

open Store

namespace Registry.P2C

variable {urls : UrlParser} {ε : Type}

/-! ### Endpoint states of a domain -/

theorem get?_retainState (states active : JsMap JsString ℕ) (e : ServiceEndpoint urls)
    (k : JsString) :
  (retainState states active e).get? k =
    if k = endpointIdentity e ∧ (states.get? k).isSome then states.get? k else active.get? k
  := by
  rw [retainState]
  split
  · rename_i state hstate
    rw [JsMap.get?_set]
    by_cases hk : k = endpointIdentity e
    · rw [if_pos hk, hk, hstate, if_pos ⟨rfl, rfl⟩]
    · rw [if_neg hk, if_neg fun h => hk h.1]
  · rename_i hnone
    rw [if_neg]
    rintro ⟨rfl, hsome⟩
    rw [hnone] at hsome
    cases hsome

theorem get?_retained (states : JsMap JsString ℕ) (endpoints : List (ServiceEndpoint urls))
    (k : JsString) :
  (retained states endpoints).get? k =
    if k ∈ endpoints.map endpointIdentity then states.get? k else none
  := by
  have hfold : ∀ active : JsMap JsString ℕ,
      (endpoints.foldl (retainState states) active).get? k =
        if k ∈ endpoints.map endpointIdentity ∧ (states.get? k).isSome then states.get? k
        else active.get? k := by
    induction endpoints with
    | nil =>
        intro active
        rw [if_neg fun h => absurd h.1 List.not_mem_nil]
        rfl
    | cons e endpoints ih =>
        intro active
        rw [List.foldl_cons, ih, get?_retainState, List.map_cons]
        by_cases hmem : k ∈ endpoints.map endpointIdentity
        · by_cases hsome : (states.get? k).isSome
          · rw [if_pos ⟨hmem, hsome⟩, if_pos ⟨List.mem_cons_of_mem _ hmem, hsome⟩]
          · rw [if_neg fun h => hsome h.2, if_neg fun h => hsome h.2, if_neg fun h => hsome h.2]
        · simp only [List.mem_cons, hmem, false_and, if_false, or_false]
  rw [retained, hfold, JsMap.get?_empty]
  cases states.get? k with
  | some state => simp only [Option.isSome_some, and_true]
  | none => simp only [Option.isSome_none, Bool.false_eq_true, and_false, ite_self]

/-- What a selection makes of the endpoint states of its domain. -/
structure Selected (l : Ledger ε) (states : JsMap JsString ℕ)
    (endpoints : List (ServiceEndpoint urls)) (outcome : Ledger ε × JsMap JsString ℕ × ℕ) :
    Prop where
  ledger : outcome.1 = l ∨ outcome.1 = l.create
  keeps : ∀ k s, k ∈ endpoints.map endpointIdentity → states.get? k = some s →
    outcome.2.1.get? k = some s
  mapped : (∀ k s, states.get? k = some s → s < l.stateCount) →
    outcome.2.2 < outcome.1.stateCount ∧
      ∀ k s, outcome.2.1.get? k = some s → s < outcome.1.stateCount

theorem selected_selectedP2CState (l : Ledger ε) (states : JsMap JsString ℕ)
    (endpoints : List (ServiceEndpoint urls)) (selected : ServiceEndpoint urls) :
  Selected l states endpoints (selectedP2CState l states endpoints selected)
  := by
  have hretained : ∀ k s, (retained states endpoints).get? k = some s →
      states.get? k = some s := by
    intro k s h
    rw [get?_retained] at h
    split at h
    · exact h
    · cases h
  have hkeeps : ∀ k s, k ∈ endpoints.map endpointIdentity → states.get? k = some s →
      (retained states endpoints).get? k = some s := by
    intro k s hk hs
    rw [get?_retained, if_pos hk, hs]
  rw [selectedP2CState]
  split
  · rename_i state hstate
    constructor
    case ledger => exact .inl rfl
    case keeps => exact hkeeps
    case mapped =>
      intro hmapped
      exact ⟨hmapped _ _ (hretained _ _ hstate), fun k s hs => hmapped k s (hretained k s hs)⟩
  · rename_i hnone
    constructor
    case ledger => exact .inr rfl
    case keeps =>
      intro k s hk hs
      have hactive := hkeeps k s hk hs
      have hne : k ≠ endpointIdentity selected := by
        rintro rfl
        rw [hnone] at hactive
        cases hactive
      rw [JsMap.get?_set, if_neg hne]
      exact hactive
    case mapped =>
      intro hmapped
      refine ⟨Nat.lt_succ_self _, ?_⟩
      intro k s hs
      rw [JsMap.get?_set] at hs
      split at hs
      · cases hs
        exact Nat.lt_succ_self _
      · exact (hmapped k s (hretained k s hs)).trans (Nat.lt_succ_self _)

/-! ### Directories in order -/

/-- A selection begins for a domain that is not kept only while no selection of the domain is in
progress, and no more domains are kept than there is place for. -/
def Orderly (directory : Directory) (holdings : List Holding) (domain : JsString) : Prop :=
  directory.domains.get? domain = none →
    directory.domains.size ≤ maximumSelectionDomains ∧ ∀ h ∈ holdings, h.domain ≠ domain

/-- One more domain is kept than there is place for: a selection has added it, and the selections
that have begun since then are of domains that are kept. -/
structure Overfull (directory : Directory) (holdings : List Holding) : Prop where
  size : directory.domains.size = maximumSelectionDomains + 1
  added : ∃ above holding below, holdings = above ++ holding :: below ∧ holding.fresh = true ∧
    directory.domains.get? holding.domain = some holding.state ∧
    (directory.endpoints holding.state).size = 0 ∧
    ∀ h ∈ above, h.fresh = false ∧ ∃ state, directory.domains.get? h.domain = some state

/-- The directory is in order. Each domain state has a domain. -/
structure Tended (directory : Directory) (holdings : List Holding) (domainOf : ℕ → JsString) :
    Prop where
  counted : ∀ domain state, directory.domains.get? domain = some state →
    state < directory.domainCount
  owned : ∀ domain state, directory.domains.get? domain = some state → domainOf state = domain
  held : ∀ h ∈ holdings, h.state < directory.domainCount ∧ domainOf h.state = h.domain
  agrees : ∀ h ∈ holdings, ∀ state, directory.domains.get? h.domain = some state →
    state = h.state
  agreesHeld : ∀ h ∈ holdings, ∀ h' ∈ holdings, h.domain = h'.domain → h.state = h'.state
  fits : directory.domains.size ≤ maximumSelectionDomains ∨ Overfull directory holdings

theorem tended_newDirectory :
  Tended newDirectory [] (fun _ => .empty)
  := by
  constructor
  case counted => rintro _ _ ⟨⟩
  case owned => rintro _ _ ⟨⟩
  case held => exact fun _ h => absurd h List.not_mem_nil
  case agrees => exact fun _ h => absurd h List.not_mem_nil
  case agreesHeld => exact fun _ h => absurd h List.not_mem_nil
  case fits => exact .inl (Nat.zero_le _)

section

variable {directory : Directory} {holding : Holding} {holdings : List Holding}
  {domainOf : ℕ → JsString}

theorem get?_add (domain domain' : JsString) :
  (directory.add domain).domains.get? domain' =
    if domain' = domain then some directory.domainCount else directory.domains.get? domain'
  := JsMap.get?_set _ _ _ _

theorem endpoints_add (domain : JsString) (state : ℕ) :
  (directory.add domain).endpoints state =
    if state = directory.domainCount then .empty else directory.endpoints state
  := Function.update_apply _ _ _ _

theorem endpoints_finish (states : JsMap JsString ℕ) (state : ℕ) :
  (directory.finish holding states).endpoints state =
    if state = holding.state then states else directory.endpoints state
  := Function.update_apply _ _ _ _

variable {domain : JsString} {state : ℕ}

theorem Tended.kept (h : Tended directory holdings domainOf)
    (hkept : directory.domains.get? domain = some state) :
  Tended directory (⟨domain, false, state⟩ :: holdings) domainOf
  := by
  constructor
  case counted => exact h.counted
  case owned => exact h.owned
  case held =>
    intro g hg
    obtain rfl | hg := List.mem_cons.mp hg
    · exact ⟨h.counted _ _ hkept, h.owned _ _ hkept⟩
    · exact h.held g hg
  case agrees =>
    intro g hg state' hstate'
    obtain rfl | hg := List.mem_cons.mp hg
    · exact Option.some.inj (hstate'.symm.trans hkept)
    · exact h.agrees g hg state' hstate'
  case agreesHeld =>
    -- a selection in progress of the same domain has the state that is kept
    have hsame : ∀ g ∈ holdings, g.domain = domain → g.state = state := by
      rintro g hg rfl
      exact (h.agrees g hg state hkept).symm
    intro g hg g' hg' hdomain
    obtain rfl | hg := List.mem_cons.mp hg
    · obtain rfl | hg' := List.mem_cons.mp hg'
      · rfl
      · exact (hsame g' hg' hdomain.symm).symm
    · obtain rfl | hg' := List.mem_cons.mp hg'
      · exact hsame g hg hdomain
      · exact h.agreesHeld g hg g' hg' hdomain
  case fits =>
    apply h.fits.imp_right
    rintro ⟨hsize, above, f, below, rfl, hfresh, hstate, hempty, habove⟩
    refine ⟨hsize, ⟨domain, false, state⟩ :: above, f, below, rfl, hfresh, hstate, hempty, ?_⟩
    intro g hg
    obtain rfl | hg := List.mem_cons.mp hg
    · exact ⟨rfl, state, hkept⟩
    · exact habove g hg

theorem Tended.fresh (h : Tended directory holdings domainOf)
    (hnone : directory.domains.get? domain = none) (horderly : Orderly directory holdings domain) :
  Tended (directory.add domain) (⟨domain, true, directory.domainCount⟩ :: holdings)
    (Function.update domainOf directory.domainCount domain)
  := by
  obtain ⟨hplace, hother⟩ := horderly hnone
  have hof : ∀ state < directory.domainCount,
      Function.update domainOf directory.domainCount domain state = domainOf state := by
    intro state hstate
    rw [Function.update_of_ne hstate.ne]
  constructor
  case counted =>
    intro domain' state hstate
    rw [get?_add] at hstate
    split at hstate
    · cases hstate
      exact Nat.lt_succ_self _
    · exact (h.counted _ _ hstate).trans (Nat.lt_succ_self _)
  case owned =>
    intro domain' state hstate
    rw [get?_add] at hstate
    split at hstate
    · rename_i heq
      cases hstate
      rw [Function.update_self, heq]
    · rw [hof _ (h.counted _ _ hstate)]
      exact h.owned _ _ hstate
  case held =>
    intro g hg
    obtain rfl | hg := List.mem_cons.mp hg
    · exact ⟨Nat.lt_succ_self _, Function.update_self _ _ _⟩
    · obtain ⟨hcount, howner⟩ := h.held g hg
      rw [hof _ hcount]
      exact ⟨hcount.trans (Nat.lt_succ_self _), howner⟩
  case agrees =>
    intro g hg state hstate
    rw [get?_add] at hstate
    obtain rfl | hg := List.mem_cons.mp hg
    · rw [if_pos rfl] at hstate
      exact (Option.some.inj hstate).symm
    · rw [if_neg (hother g hg)] at hstate
      exact h.agrees g hg state hstate
  case agreesHeld =>
    intro g hg g' hg' hdomain
    obtain rfl | hg := List.mem_cons.mp hg
    · obtain rfl | hg' := List.mem_cons.mp hg'
      · rfl
      · exact absurd hdomain.symm (hother g' hg')
    · obtain rfl | hg' := List.mem_cons.mp hg'
      · exact absurd hdomain (hother g hg)
      · exact h.agreesHeld g hg g' hg' hdomain
  case fits =>
    have hsize : (directory.add domain).domains.size = directory.domains.size + 1 :=
      JsMap.size_set_of_not hnone directory.domainCount
    obtain hle | heq : directory.domains.size + 1 ≤ maximumSelectionDomains ∨
        directory.domains.size = maximumSelectionDomains := by omega
    · left
      rw [hsize]
      exact hle
    · right
      constructor
      case size => rw [hsize, heq]
      case added =>
        refine ⟨[], _, holdings, rfl, rfl, ?_, ?_, fun _ hg => absurd hg List.not_mem_nil⟩
        · rw [get?_add, if_pos rfl]
        · rw [endpoints_add, if_pos rfl]
          rfl

/-- A selection that ends finds its domain kept, when one more is kept than there is place for. -/
theorem Overfull.present (h : Overfull directory (holding :: holdings)) :
  ∃ state, directory.domains.get? holding.domain = some state
  := by
  obtain ⟨_, above, f, below, hlist, _, hstate, _, habove⟩ := h
  match above with
  | [] =>
      obtain ⟨rfl, _⟩ := List.cons.inj hlist
      exact ⟨_, hstate⟩
  | g :: above =>
      obtain ⟨rfl, _⟩ := List.cons.inj hlist
      exact (habove _ List.mem_cons_self).2

/-- There is place when a selection has thrown. -/
theorem Overfull.abort (h : Overfull directory (holding :: holdings)) :
  (abortSelect directory holding).domains.size ≤ maximumSelectionDomains ∨
    abortSelect directory holding = directory ∧ Overfull directory holdings
  := by
  obtain ⟨hsize, above, f, below, hlist, hfresh, hstate, hempty, habove⟩ := h
  match above with
  | [] =>
      obtain ⟨rfl, rfl⟩ := List.cons.inj hlist
      left
      rw [abortSelect, if_pos ⟨hfresh, hempty, hstate⟩]
      have hdelete := JsMap.size_delete_of_get? hstate
      dsimp only
      omega
  | g :: above =>
      obtain ⟨rfl, rfl⟩ := List.cons.inj hlist
      right
      constructor
      · rw [abortSelect, if_neg]
        rintro ⟨htrue, _⟩
        rw [(habove _ List.mem_cons_self).1] at htrue
        cases htrue
      · exact ⟨hsize, above, f, below, rfl, hfresh, hstate, hempty,
          fun g hg => habove g (List.mem_cons_of_mem _ hg)⟩

theorem get?_abortSelect (h : (abortSelect directory holding).domains.get? domain = some state) :
  directory.domains.get? domain = some state
  := by
  rw [abortSelect] at h
  split at h
  · rw [JsMap.get?_delete] at h
    split at h
    · cases h
    · exact h
  · exact h

theorem domainCount_abortSelect :
  (abortSelect directory holding).domainCount = directory.domainCount
  := by
  rw [abortSelect]
  split
  · rfl
  · rfl

theorem size_abortSelect_le :
  (abortSelect directory holding).domains.size ≤ directory.domains.size
  := by
  rw [abortSelect]
  split
  · exact List.length_filter_le _ _
  · exact le_rfl

theorem Tended.abort (h : Tended directory (holding :: holdings) domainOf) :
  Tended (abortSelect directory holding) holdings domainOf
  := by
  constructor
  case counted =>
    intro domain state hstate
    rw [domainCount_abortSelect]
    exact h.counted domain state (get?_abortSelect hstate)
  case owned => exact fun domain state hstate => h.owned domain state (get?_abortSelect hstate)
  case held =>
    intro g hg
    rw [domainCount_abortSelect]
    exact h.held g (List.mem_cons_of_mem _ hg)
  case agrees =>
    exact fun g hg state hstate =>
      h.agrees g (List.mem_cons_of_mem _ hg) state (get?_abortSelect hstate)
  case agreesHeld =>
    exact fun g hg g' hg' =>
      h.agreesHeld g (List.mem_cons_of_mem _ hg) g' (List.mem_cons_of_mem _ hg')
  case fits =>
    obtain hle | hover := h.fits
    · exact .inl (size_abortSelect_le.trans hle)
    · obtain hle | ⟨hsame, hover⟩ := hover.abort
      · exact .inl hle
      · rw [hsame]
        exact .inr hover

/-- No more domains are kept after a selection than there is place for. -/
theorem Tended.size_finish (h : Tended directory (holding :: holdings) domainOf)
    (states : JsMap JsString ℕ) :
  (directory.finish holding states).domains.size ≤ maximumSelectionDomains
  := by
  have hother : (directory.domains.delete holding.domain).size ≤ maximumSelectionDomains := by
    obtain hle | hover := h.fits
    · exact (List.length_filter_le _ _).trans hle
    · obtain ⟨state, hstate⟩ := hover.present
      have hdelete := JsMap.size_delete_of_get? hstate
      have hsize := hover.size
      omega
  have hlimit : 0 < maximumSelectionDomains := by decide
  rw [Directory.finish, JsMap.size_remember]
  split
  · omega
  · omega

variable {states : JsMap JsString ℕ}

theorem get?_finish (h : (directory.finish holding states).domains.get? domain = some state) :
  domain = holding.domain ∧ state = holding.state ∨ directory.domains.get? domain = some state
  := by
  by_cases hdomain : domain = holding.domain
  · left
    rw [hdomain, Directory.finish, JsMap.get?_remember_self] at h
    exact ⟨hdomain, (Option.some.inj h).symm⟩
  · exact .inr (JsMap.get?_of_remember hdomain h)

theorem Tended.finish (h : Tended directory (holding :: holdings) domainOf)
    (states : JsMap JsString ℕ) :
  Tended (directory.finish holding states) holdings domainOf
  := by
  obtain ⟨hcount, howner⟩ := h.held holding List.mem_cons_self
  constructor
  case counted =>
    intro domain state hstate
    obtain ⟨_, rfl⟩ | hstate := get?_finish hstate
    · exact hcount
    · exact h.counted domain state hstate
  case owned =>
    intro domain state hstate
    obtain ⟨rfl, rfl⟩ | hstate := get?_finish hstate
    · exact howner
    · exact h.owned domain state hstate
  case held => exact fun g hg => h.held g (List.mem_cons_of_mem _ hg)
  case agrees =>
    intro g hg state hstate
    obtain ⟨hdomain, rfl⟩ | hstate := get?_finish hstate
    · exact h.agreesHeld holding List.mem_cons_self g (List.mem_cons_of_mem _ hg) hdomain.symm
    · exact h.agrees g (List.mem_cons_of_mem _ hg) state hstate
  case agreesHeld =>
    exact fun g hg g' hg' =>
      h.agreesHeld g (List.mem_cons_of_mem _ hg) g' (List.mem_cons_of_mem _ hg')
  case fits => exact .inl (h.size_finish states)

/-! ### Domains that are kept -/

/-- An endpoint has a state in a domain that is kept. -/
def Directory.Keeps (directory : Directory) (domain endpoint : JsString) (state : ℕ) : Prop :=
  ∃ domainState, directory.domains.get? domain = some domainState ∧
    (directory.endpoints domainState).get? endpoint = some state

variable {endpoint : JsString}

theorem Tended.keeps_fresh (h : Tended directory holdings domainOf)
    (hnone : directory.domains.get? domain = none) {domain' : JsString}
    (hkeeps : directory.Keeps domain' endpoint state) :
  (directory.add domain).Keeps domain' endpoint state
  := by
  obtain ⟨domainState, hdomain, hendpoint⟩ := hkeeps
  use domainState
  constructor
  · rw [get?_add, if_neg]
    · exact hdomain
    · rintro rfl
      rw [hnone] at hdomain
      cases hdomain
  · rw [endpoints_add, if_neg (h.counted _ _ hdomain).ne]
    exact hendpoint

theorem keeps_abort (hkeeps : directory.Keeps domain endpoint state) :
  (abortSelect directory holding).Keeps domain endpoint state
  := by
  obtain ⟨domainState, hdomain, hendpoint⟩ := hkeeps
  rw [abortSelect]
  split
  · rename_i habort
    refine ⟨domainState, ?_, hendpoint⟩
    rw [JsMap.get?_delete, if_neg]
    · exact hdomain
    · rintro rfl
      rw [hdomain] at habort
      obtain rfl := Option.some.inj habort.2.2
      have hmem := JsMap.get?_eq_some.mp hendpoint
      rw [List.length_eq_zero_iff.mp habort.2.1] at hmem
      exact absurd hmem List.not_mem_nil
  · exact ⟨domainState, hdomain, hendpoint⟩

/-- After a selection in another domain, a domain is kept or has been evicted. -/
theorem Tended.keeps_finish_of_ne (h : Tended directory (holding :: holdings) domainOf)
    (hne : domain ≠ holding.domain) (hkeeps : directory.Keeps domain endpoint state) :
  (directory.finish holding states).Keeps domain endpoint state ∨
    (directory.finish holding states).domains.get? domain = none ∧
      maximumSelectionDomains ≤ (directory.domains.delete holding.domain).size
  := by
  obtain ⟨domainState, hdomain, hendpoint⟩ := hkeeps
  apply (JsMap.get?_remember_of_ne hne hdomain holding.state).imp_left
  intro hkept
  refine ⟨domainState, hkept, ?_⟩
  rw [endpoints_finish, if_neg]
  · exact hendpoint
  · rintro rfl
    exact hne ((h.owned _ _ hdomain).symm.trans (h.held holding List.mem_cons_self).2)

/-- After a selection in its domain, an endpoint has the state that the selection leaves it. -/
theorem Tended.keeps_finish (h : Tended directory (holding :: holdings) domainOf)
    (hstates : (directory.endpoints holding.state).get? endpoint = some state → states.get? endpoint = some state)
    (hkeeps : directory.Keeps holding.domain endpoint state) :
  (directory.finish holding states).Keeps holding.domain endpoint state
  := by
  obtain ⟨domainState, hdomain, hendpoint⟩ := hkeeps
  obtain rfl := h.agrees holding List.mem_cons_self _ hdomain
  refine ⟨holding.state, JsMap.get?_remember_self _ _ _ _, ?_⟩
  rw [endpoints_finish, if_pos rfl]
  exact hstates hendpoint

end

end Registry.P2C
