import GoLike.Store.Table

/-!
# Listing by pages

A provider lists the visible records under a text that keys begin with page by page. The
cursor after a page is stamped with the generation of the records. When the generation
moves with every change of the records, to a number not used before, a cursor is accepted
only on the records it was issued for, and the pages obtained by following cursors are a
partition of them.
-/

namespace Store

/-! ### Providers -/

/-- What a provider of listings is. -/
structure Provider where
  State : Type
  /-- The states of a store that has been created or started. -/
  Initial : State → Prop
  records : State → Records
  revision : State → ℕ
  /-- Anything that happens to the store. -/
  Step : State → State → Prop
  /-- A list with effective options, at a time, returns a page and leads to a state. -/
  Lists : State → Timestamp → ListOptions → StorePage → State → Prop

/-- The records under a text that are visible at a time, in the order of their keys. -/
def visibleUnder (records : Records) (now : Timestamp) (keyPrefix : JsString) :
    List StoreRecord :=
  (matching records keyPrefix).filter (fun r => !expired now r)

namespace Provider

variable (P : Provider)

/-- From a state on, the cursor and those after it are followed to the end of the listing,
which gives the pages. Other things may happen between the pages. -/
inductive Follows (keyPrefix : ExactString false) :
    P.State → JsonText → List (List StoreRecord) → Prop where
  | last {s s₁ s₂ now options page} (hreach : Relation.ReflTransGen P.Step s s₁)
      (hlist : P.Lists s₁ now options page s₂) (hkeyPrefix : options.keyPrefix = keyPrefix)
      (hend : page.cursor = none) {cursor} (hcursor : options.cursor = some cursor) :
      Follows keyPrefix s cursor [page.records]
  | next {s s₁ s₂ now options page} (hreach : Relation.ReflTransGen P.Step s s₁)
      (hlist : P.Lists s₁ now options page s₂) (hkeyPrefix : options.keyPrefix = keyPrefix)
      {cursor' rest} (hnext : page.cursor = some cursor')
      (hrest : Follows keyPrefix s₂ cursor' rest) {cursor}
      (hcursor : options.cursor = some cursor) :
      Follows keyPrefix s cursor (page.records :: rest)

/-- Listing by pages neither skips nor repeats a record. -/
structure Paginates : Prop where
  /-- A cursor is accepted only where the visible records are those it was issued for. -/
  accepted : ∀ {s₀ s₁ s₁' s₂ s₂' now₁ now₂ options₁ options₂ page₁ page₂ cursor},
    P.Initial s₀ → Relation.ReflTransGen P.Step s₀ s₁ →
    P.Lists s₁ now₁ options₁ page₁ s₁' → page₁.cursor = some cursor →
    Relation.ReflTransGen P.Step s₁' s₂ →
    P.Lists s₂ now₂ options₂ page₂ s₂' → options₂.cursor = some cursor →
    options₂.keyPrefix = options₁.keyPrefix ∧
      visibleUnder (P.records s₂) now₂ options₂.keyPrefix.val =
        visibleUnder (P.records s₁) now₁ options₁.keyPrefix.val
  /-- A first page without a cursor has all the visible records, and one with a cursor
  together with the pages obtained by following it does. -/
  complete : ∀ {s₀ s₁ s₁' now options page},
    P.Initial s₀ → Relation.ReflTransGen P.Step s₀ s₁ →
    P.Lists s₁ now options page s₁' → options.cursor = none →
    (page.cursor = none →
      page.records = visibleUnder (P.records s₁) now options.keyPrefix.val) ∧
    ∀ {cursor pages}, page.cursor = some cursor →
      P.Follows options.keyPrefix s₁' cursor pages →
      page.records ++ pages.flatten =
        visibleUnder (P.records s₁) now options.keyPrefix.val
  /-- The visible records are listed in strictly increasing order of their keys. -/
  ordered : ∀ {s₀ s₁ now keyPrefix}, P.Initial s₀ → Relation.ReflTransGen P.Step s₀ s₁ →
    SortedByKey StoreRecord.key (visibleUnder (P.records s₁) now keyPrefix) ∧
      ∀ r, r ∈ visibleUnder (P.records s₁) now keyPrefix ↔
        visible (P.records s₁) now r.key = some r ∧ r.key.val.startsWith keyPrefix = true

/-- The generation moves on, or the records are the same. -/
def Advances (s s' : P.State) : Prop :=
  P.revision s < P.revision s' ∨
    (P.revision s' = P.revision s ∧
      ∀ key, (P.records s').lookup key = (P.records s).lookup key)

/-- The provider stamps its cursors with a generation that moves with every change. The
invariant is what is known of the states it reaches. -/
structure Stamps (invariant : P.State → Prop) (cursorAt : ℕ → JsString → ℕ → JsonText) :
    Prop where
  initial : ∀ {s}, P.Initial s → invariant s
  step : ∀ {s s'}, invariant s → P.Step s s' → invariant s' ∧ P.Advances s s'
  keyed : ∀ {s}, invariant s → Keyed (P.records s)
  lists : ∀ {s s' now options page}, invariant s → P.Lists s now options page s' →
    invariant s' ∧ P.Advances s s' ∧
      (∀ key, (P.records s').lookup key = visible (P.records s) now key) ∧
      ∃ offset count,
        page = pageFrom (matching (P.records s') options.keyPrefix.val) offset count
          (cursorAt (P.revision s') options.keyPrefix.val) ∧
        (options.cursor = none → offset = 0) ∧
        ∀ revision keyPrefix n, options.cursor = some (cursorAt revision keyPrefix n) →
          revision = P.revision s' ∧ keyPrefix = options.keyPrefix.val ∧ n = offset

/-! ### Pages of a list -/

end Provider

theorem take_append_drop_of_page (l : List StoreRecord) (offset count : ℕ) :
  (l.drop offset).take count ++ l.drop (offset + ((l.drop offset).take count).length) =
    l.drop offset
  := by
  rw [← List.drop_drop, List.length_take, List.length_drop]
  conv_rhs => rw [← List.take_append_drop count (l.drop offset)]
  congr 1
  by_cases h : count ≤ l.length - offset
  · rw [Nat.min_eq_left h]
  · rw [Nat.min_eq_right (by omega), List.drop_eq_nil_of_le (by simp),
      List.drop_eq_nil_of_le (by simp; omega)]

theorem pageFrom_cursor_eq_none {l : List StoreRecord} {offset count : ℕ}
    {cursorAt : ℕ → JsonText} (h : (pageFrom l offset count cursorAt).cursor = none) :
  (pageFrom l offset count cursorAt).records = l.drop offset
  := by
  rw [pageFrom, ite_eq_right_iff] at h
  have hend : l.length ≤ offset + ((l.drop offset).take count).length := by
    by_contra hlt
    cases h (not_le.mp hlt)
  have hall := take_append_drop_of_page l offset count
  rw [List.drop_eq_nil_of_le hend, List.append_nil] at hall
  exact hall

theorem pageFrom_cursor_eq_some {l : List StoreRecord} {offset count : ℕ}
    {cursorAt : ℕ → JsonText} {cursor : JsonText}
    (h : (pageFrom l offset count cursorAt).cursor = some cursor) :
  cursor = cursorAt (offset + (pageFrom l offset count cursorAt).records.length)
  := by
  rw [pageFrom, ite_eq_iff] at h
  obtain ⟨-, h⟩ | ⟨-, h⟩ := h
  · cases h
    rfl
  · cases h

/-- The listing of the records that are visible now. -/
theorem matching_of_visible {records records' : Records} (hkeyed : Keyed records)
    {now : Timestamp} (h : ∀ key, records'.lookup key = visible records now key)
    (keyPrefix : JsString) :
  matching records' keyPrefix = visibleUnder records now keyPrefix
  := by
  have hkeyed' : Keyed records' := by
    intro key r hr
    rw [h] at hr
    exact hkeyed key r (visible_eq_some.mp hr).1
  apply SortedByKey.eq_of_mem_iff StoreRecord.key (matching_sorted hkeyed' keyPrefix)
    ((matching_sorted hkeyed keyPrefix).filter _)
  intro r
  rw [mem_matching hkeyed', h, visible_eq_some, List.mem_filter, mem_matching hkeyed]
  simp only [Bool.not_eq_eq_eq_not, Bool.not_true]
  tauto

namespace Provider

variable {P : Provider} {invariant : P.State → Prop} {cursorAt : ℕ → JsString → ℕ → JsonText}

/-! ### Generations -/

theorem Advances.refl (s : P.State) :
  P.Advances s s
  := .inr ⟨rfl, fun _ => rfl⟩

theorem Advances.trans {s s' s'' : P.State} (h : P.Advances s s') (h' : P.Advances s' s'') :
  P.Advances s s''
  := by
  obtain hlt | ⟨heq, hsame⟩ := h
  · obtain hlt' | ⟨heq', -⟩ := h'
    · exact .inl (hlt.trans hlt')
    · exact .inl (by omega)
  · obtain hlt' | ⟨heq', hsame'⟩ := h'
    · exact .inl (by omega)
    · exact .inr ⟨heq'.trans heq, fun key => (hsame' key).trans (hsame key)⟩

/-- States of one generation have the same records. -/
theorem Advances.same {s s' : P.State} (h : P.Advances s s')
    (hrevision : P.revision s = P.revision s') (key : Key) :
  (P.records s').lookup key = (P.records s).lookup key
  := by
  obtain hlt | ⟨-, hsame⟩ := h
  · omega
  · exact hsame key

theorem Stamps.reach (h : P.Stamps invariant cursorAt) {s s' : P.State} (hs : invariant s)
    (hreach : Relation.ReflTransGen P.Step s s') :
  invariant s' ∧ P.Advances s s'
  := by
  induction hreach with
  | refl => exact ⟨hs, .refl s⟩
  | tail _ hstep ih =>
      obtain ⟨hinv, hadvances⟩ := h.step ih.1 hstep
      exact ⟨hinv, ih.2.trans hadvances⟩

/-! ### Cursors -/

/-- A cursor that is accepted was issued for the records that are listed. -/
theorem Stamps.accepted (h : P.Stamps invariant cursorAt) {s s₁ s₂ : P.State} {now : Timestamp}
    {options : ListOptions} {page : StorePage} (hs : invariant s)
    (hreach : Relation.ReflTransGen P.Step s s₁) (hlist : P.Lists s₁ now options page s₂)
    {keyPrefix : JsString} {n : ℕ}
    (hcursor : options.cursor = some (cursorAt (P.revision s) keyPrefix n)) :
  keyPrefix = options.keyPrefix.val ∧
    matching (P.records s₂) keyPrefix = matching (P.records s) keyPrefix ∧
    ∃ count, page = pageFrom (matching (P.records s) keyPrefix) n count
      (cursorAt (P.revision s₂) keyPrefix)
  := by
  obtain ⟨hs₁, hadvances₁⟩ := h.reach hs hreach
  obtain ⟨-, hadvances₂, -, offset, count, hpage, -, hdesignates⟩ := h.lists hs₁ hlist
  obtain ⟨hrevision, rfl, rfl⟩ := hdesignates _ _ _ hcursor
  have hsame := (hadvances₁.trans hadvances₂).same hrevision
  have hmatching := matching_congr (h.keyed hs) hsame options.keyPrefix.val
  rw [hmatching] at hpage
  exact ⟨rfl, hmatching, count, hpage⟩

/-- The pages obtained by following a cursor are the records from its offset on. -/
theorem Stamps.follows (h : P.Stamps invariant cursorAt) {keyPrefix : ExactString false}
    {s : P.State} {cursor : JsonText} {pages : List (List StoreRecord)}
    (hfollows : P.Follows keyPrefix s cursor pages) (hs : invariant s) {n : ℕ}
    (hcursor : cursor = cursorAt (P.revision s) keyPrefix.val n) :
  pages.flatten = (matching (P.records s) keyPrefix.val).drop n
  := by
  induction hfollows generalizing n with
  | last hreach hlist hkeyPrefix hend hoptions =>
      rw [hcursor] at hoptions
      obtain ⟨-, -, count, hpage⟩ := h.accepted hs hreach hlist hoptions
      rw [hpage] at hend ⊢
      rw [List.flatten_singleton, pageFrom_cursor_eq_none hend]
  | next hreach hlist hkeyPrefix hnext hrest hoptions ih =>
      rw [hcursor] at hoptions
      obtain ⟨-, hmatching, count, hpage⟩ := h.accepted hs hreach hlist hoptions
      have hs₂ := (h.lists (h.reach hs hreach).1 hlist).1
      rw [hpage] at hnext
      have hrest' := ih hs₂ (pageFrom_cursor_eq_some hnext)
      rw [List.flatten_cons, hrest', hmatching, hpage]
      apply take_append_drop_of_page

/-- A provider that stamps its cursors lists by pages without skipping or repeating. -/
theorem Stamps.paginates (h : P.Stamps invariant cursorAt) :
  P.Paginates
  := by
  constructor
  case accepted =>
    intro s₀ s₁ s₁' s₂ s₂' now₁ now₂ options₁ options₂ page₁ page₂ cursor hinit hreach₁ hlist₁
      hissued hreach₂ hlist₂ hcursor
    obtain ⟨hs₁, -⟩ := h.reach (h.initial hinit) hreach₁
    obtain ⟨hs₁', -, hlookup₁, offset, count, hpage, -, -⟩ := h.lists hs₁ hlist₁
    obtain ⟨hs₂, -⟩ := h.reach hs₁' hreach₂
    obtain ⟨-, -, hlookup₂, -⟩ := h.lists hs₂ hlist₂
    rw [hpage] at hissued
    rw [pageFrom_cursor_eq_some hissued] at hcursor
    obtain ⟨hkeyPrefix, hmatching, -⟩ := h.accepted hs₁' hreach₂ hlist₂ hcursor
    refine ⟨(Subtype.ext hkeyPrefix).symm, ?_⟩
    rw [← matching_of_visible (h.keyed hs₁) hlookup₁, ← matching_of_visible (h.keyed hs₂) hlookup₂,
      ← hkeyPrefix, hmatching]
  case complete =>
    intro s₀ s₁ s₁' now options page hinit hreach hlist hfirst
    obtain ⟨hs₁, -⟩ := h.reach (h.initial hinit) hreach
    obtain ⟨hs₁', -, hlookup, offset, count, hpage, hstart, -⟩ := h.lists hs₁ hlist
    have hoffset := hstart hfirst
    subst hoffset
    rw [← matching_of_visible (h.keyed hs₁) hlookup]
    constructor
    · intro hend
      rw [hpage] at hend ⊢
      rw [pageFrom_cursor_eq_none hend, List.drop_zero]
    · intro cursor pages hnext hfollows
      rw [hpage] at hnext
      rw [h.follows hfollows hs₁' (pageFrom_cursor_eq_some hnext), hpage]
      apply take_append_drop_of_page _ 0
  case ordered =>
    intro s₀ s₁ now keyPrefix hinit hreach
    obtain ⟨hs₁, -⟩ := h.reach (h.initial hinit) hreach
    constructor
    · exact (matching_sorted (h.keyed hs₁) keyPrefix).filter _
    · intro r
      unfold visibleUnder
      rw [List.mem_filter, mem_matching (h.keyed hs₁), visible_eq_some]
      simp only [Bool.not_eq_eq_eq_not, Bool.not_true]
      tauto

end Provider

end Store
