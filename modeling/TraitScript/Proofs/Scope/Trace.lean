import TraitScript.Proofs.Scope.Part
import TraitScript.Proofs.Scope.Resolution

/-!
# What resolving does to the scopes around a place

While a part of a tree is resolved, a local in a scope further out changes only by being marked as
read, and just those locals are marked that the reads in the part are bound to. An expression leaves
the innermost scope alone in the same way; a statement may add names to it. The errors about the
places of jumps, returns and receivers depend on those places only, and every statement inside the
part is resolved on the way.

A scope is counted by its height, the number of scopes around it, which stays the same however deep
the walk goes.
-/

namespace TraitScript

namespace Place

/-- The height of the nearest scope with a name. -/
def height? (p : Place) (name : String) : Option Nat :=
  (p.distance? name).map (p.scopes.length - 1 - ·)

theorem Grows.height {p q : Place} (h : p.Grows q) : q.scopes.length = p.scopes.length := by
  have hsites : (q.scopes.map (·.site)).length = (p.scopes.map (·.site)).length :=
    congrArg List.length h.sites
  rwa [List.length_map, List.length_map] at hsites

end Place

namespace Resolve

open State

/-! ### Reads and marks -/

/-- The local that a read marks, as the height of its scope and its name. -/
def reads? : Place × Use → Option (Nat × String)
  | (p, .read _ name) => (p.height? name.lexeme).map (·, name.lexeme)
  | (p, .this _ keyword) =>
    if p.classKind = .none then none else (p.height? keyword.lexeme).map (·, keyword.lexeme)
  | (p, .super _ keyword) =>
    if p.classKind = .subclass then (p.height? keyword.lexeme).map (·, keyword.lexeme) else none
  | _ => none

/-- What becomes of a local while uses are resolved. -/
def marked (uses : Uses) (height : Nat) (name : String) (entry : Local) : Local :=
  if (height, name) ∈ uses.filterMap reads? then { entry with progress := .read } else entry

@[simp] theorem marked_nil (height : Nat) (name : String) : marked [] height name = id := rfl

theorem marked_append (us vs : Uses) (height : Nat) (name : String) (entry : Local) :
    marked (us ++ vs) height name entry = marked vs height name (marked us height name entry) := by
  simp only [marked, List.filterMap_append, List.mem_append]
  by_cases hus : (height, name) ∈ us.filterMap reads? <;> by_cases hvs : (height, name) ∈
    vs.filterMap reads? <;> simp [hus, hvs]

theorem marked_cons_silent {u : Place × Use} (hsilent : reads? u = none) (us : Uses) :
    marked (u :: us) = marked us := by
  funext height name entry
  rw [marked, marked, List.filterMap_cons_none hsilent]

theorem mem_filterMap_singleton {u : Place × Use} {found : Nat × String} :
    found ∈ [u].filterMap reads? ↔ reads? u = some found := by
  simp

/-- The local of a name in the scope of a height. -/
def localAt : List Scope → Nat → String → Option Local
  | [], _, _ => none
  | scope :: outer, height, name =>
    if height = outer.length then scope.find? name else localAt outer height name

theorem localAt_innermost (scope : Scope) (outer : List Scope) (name : String) :
    localAt (scope :: outer) outer.length name = scope.find? name := if_pos rfl

theorem localAt_outer (scope : Scope) {outer : List Scope} {height : Nat}
    (h : height < outer.length) (name : String) :
    localAt (scope :: outer) height name = localAt outer height name := if_neg (Nat.ne_of_lt h)

theorem localAt_of_le {scopes : List Scope} {height : Nat} (h : scopes.length ≤ height)
    (name : String) : localAt scopes height name = none := by
  induction scopes with
  | nil => rfl
  | cons scope outer ih =>
      rw [List.length_cons] at h
      rw [localAt, if_neg (by omega)]
      exact ih (by omega)

/-- The innermost scope does not matter for the others. -/
theorem localAt_tail {scopes : List Scope} {height : Nat} (h : height + 1 < scopes.length)
    (name : String) :
    localAt scopes height name = localAt scopes.tail height name := by
  cases scopes with
  | nil => simp at h
  | cons scope outer => exact localAt_outer scope (by simpa using h) name

theorem length_markRead (name : String) (scopes : List Scope) :
    (markRead name scopes).length = scopes.length := by
  induction scopes with
  | nil => rfl
  | cons scope outer ih =>
      rw [markRead]
      split
      · rfl
      · rw [List.length_cons, ih, List.length_cons]

/-- Marking reaches the nearest scope with the name only. -/
theorem localAt_markRead (name : String) (scopes : List Scope) (height : Nat) (other : String) :
    localAt (markRead name scopes) height other = (localAt scopes height other).map fun entry =>
      if (State.distance? name scopes).map (scopes.length - 1 - ·) = some height ∧ other = name then
        { entry with progress := .read }
      else entry := by
  induction scopes with
  | nil => rfl
  | cons scope outer ih =>
      rw [markRead, State.distance?]
      cases hfind : scope.find? name with
      | some entry =>
          rw [if_pos (contains_of_find? hfind), localAt, localAt]
          by_cases hheight : height = outer.length
          · rw [if_pos hheight, if_pos hheight, Table.find?_insert]
            by_cases hname : name = other
            · subst hname
              simp [hfind, hheight]
            · simp [hname, Ne.symm hname]
          · rw [if_neg hheight, if_neg hheight]
            simp [Ne.symm hheight]
      | none =>
          have hcontains : scope.contains name = false := by rw [Table.contains, hfind]; rfl
          rw [if_neg (by simp [hcontains]), localAt, localAt, length_markRead, ih]
          by_cases hheight : height = outer.length
          · rw [if_pos hheight, if_pos hheight]
            by_cases hname : other = name
            · rw [hname, hfind, Option.map_none]
            · simp [hname]
          · rw [if_neg hheight, if_neg hheight]
            cases hdistance : State.distance? name outer with
            | none => rfl
            | some distance => simp [Nat.sub_sub, Nat.add_comm]

/-! ### Errors of place -/

/-- Errors that only the place of a use decides. -/
def ofPlace (error : ResolveError) : Bool :=
  match error.cause with
  | .returnAtTopLevel | .valueFromInitializer | .thisOutsideClass | .superOutsideClass
  | .superWithoutSuperclass | .jumpOutsideLoop _ => true
  | .redeclared | .readInOwnInitializer | .unusedLocal _ | .inheritsFromItself => false

/-- What is wrong with the place of a use. -/
def misplaced : Place × Use → List ResolveError
  | (p, .this _ keyword) => if p.classKind = .none then [⟨.thisOutsideClass, keyword⟩] else []
  | (p, .super _ keyword) =>
    match p.classKind with
    | .none => [⟨.superOutsideClass, keyword⟩]
    | .plain => [⟨.superWithoutSuperclass, keyword⟩]
    | .subclass => []
  | (p, .jump keyword kind) => if p.inLoop then [] else [⟨.jumpOutsideLoop kind, keyword⟩]
  | (p, .returnValue keyword hasValue) =>
    (if p.functionKind = .none then [⟨.returnAtTopLevel, keyword⟩] else []) ++
      if hasValue && p.functionKind == .initializer then [⟨.valueFromInitializer, keyword⟩] else []
  | _ => []

/-- A part of the walk only adds errors, and of the errors of place just these. -/
def Reports (f : State → State) (s : State) (errors : List ResolveError) : Prop :=
  ∃ added, (f s).errors = s.errors ++ added ∧ added.filter ofPlace = errors

theorem Reports.comp {f g : State → State} {s : State} {errors errors' : List ResolveError}
    (hf : Reports f s errors) (hg : Reports g (f s) errors') :
    Reports (fun s => g (f s)) s (errors ++ errors') := by
  obtain ⟨added, hadded, rfl⟩ := hf
  obtain ⟨added', hadded', rfl⟩ := hg
  refine ⟨added ++ added', ?_, List.filter_append ..⟩
  rw [hadded', hadded, List.append_assoc]

theorem Reports.grows {f : State → State} {s : State} {errors : List ResolveError}
    (h : Reports f s errors) : s.errors <+: (f s).errors := by
  obtain ⟨added, hadded, -⟩ := h
  rw [hadded]
  exact List.prefix_append ..

theorem reports_quiet {f : State → State} {s : State} (h : (f s).errors = s.errors) :
    Reports f s [] := ⟨[], by rw [h, List.append_nil], rfl⟩

theorem reports_error (s : State) (token : Token) (cause : ResolveError.Cause) :
    Reports (·.error token cause) s ([⟨cause, token⟩].filter ofPlace) :=
      ⟨[⟨cause, token⟩], rfl, rfl⟩

theorem reports_reportUnused (tokens : List Token) (s : State) :
    Reports (reportUnused tokens) s [] := by
  induction tokens generalizing s with
  | nil => exact reports_quiet rfl
  | cons token rest ih => exact (reports_error s token (.unusedLocal token.lexeme)).comp (ih _)

theorem reports_endScope (s : State) : Reports endScope s [] := by
  cases hstack : s.scopes with
  | nil => exact reports_quiet (by simp only [endScope, hstack])
  | cons scope outer =>
      obtain ⟨added, hadded, hnone⟩ :=
        reports_reportUnused (sortTokens (unused scope)) { s with scopes := outer }
      exact ⟨added, by simpa only [endScope, hstack] using hadded, hnone⟩

/-! ### Tracing a part of the walk -/

/-- A read in the innermost scope of a local that has no value yet is reported, unless an earlier
read has marked the local. -/
def Settled (f : State → State) (p : Place) (us : Uses) : Prop :=
  ∀ s, Tracks s p → (f s).errors = [] → ∀ before q id name after,
    us = before ++ (q, .read id name) :: after → q.scopes.length = p.scopes.length →
    ∀ entry, localAt s.scopes (p.scopes.length - 1) name.lexeme = some entry →
      entry.progress = .declared →
      (p.scopes.length - 1, name.lexeme) ∈ before.filterMap reads?

/-- A part of the walk past some uses and statements, which marks what it reads in the scopes
further out. -/
structure Traces (f : State → State) (p q : Place) (us : Uses) (parts : List (Place × Stmt)) :
    Prop where
  walks : Walks f p q us
  height : q.scopes.length = p.scopes.length
  deeper : ∀ u ∈ us, p.scopes.length ≤ u.1.scopes.length
  reports : ∀ s, Tracks s p → Reports f s (us.flatMap misplaced)
  marks : ∀ s, Tracks s p → ∀ height name, height + 1 < p.scopes.length →
    localAt (f s).scopes height name = (localAt s.scopes height name).map (marked us height name)
  visits : ∀ s, Tracks s p → ∀ part ∈ parts, ∃ s', Tracks s' part.1 ∧
      (stmt part.2 s').errors <+: (f s).errors
  within : ∀ part ∈ parts, part.2.uses part.1 ⊆ us

/-- A part of the walk that declares nothing, so it only marks in the innermost scope too. -/
structure Inspects (f : State → State) (p : Place) (us : Uses) (parts : List (Place × Stmt)) :
    Prop extends Traces f p p us parts where
  marksAll : ∀ s, Tracks s p → ∀ height name,
      localAt (f s).scopes height name = (localAt s.scopes height name).map (marked us height name)
  settled : Settled f p us

section Rules

variable {f g : State → State} {p q r : Place} {us vs : Uses} {parts parts' : List (Place × Stmt)}

/-- What a part does in states that track its place is all that matters. -/
theorem Traces.onTracked (h : Traces f p q us parts) (heq : ∀ s, Tracks s p → g s = f s) :
    Traces g p q us parts where
  walks s hs := by
    rw [heq s hs]
    exact h.walks s hs
  height := h.height
  deeper := h.deeper
  reports s hs := by
    unfold Reports
    rw [heq s hs]
    exact h.reports s hs
  marks s hs := by
    rw [heq s hs]
    exact h.marks s hs
  visits s hs := by
    rw [heq s hs]
    exact h.visits s hs
  within := h.within

theorem Inspects.onTracked (h : Inspects f p us parts) (heq : ∀ s, Tracks s p → g s = f s) :
    Inspects g p us parts where
  toTraces := h.toTraces.onTracked heq
  marksAll s hs := by
    rw [heq s hs]
    exact h.marksAll s hs
  settled s hs := by
    rw [heq s hs]
    exact h.settled s hs

/-- The names of a scope matter, not the part of the text it is for. -/
theorem Inspects.change_site {site : Site} {names : List String}
    (h : Inspects f (p.enter site names) us parts) (site' : Site) :
    Inspects f (p.enter site' names) us parts where
  walks := h.walks.change_site site'
  height := rfl
  deeper := h.deeper
  reports s hs := h.reports s (hs.change_site site)
  marks s hs := h.marks s (hs.change_site site)
  visits s hs := h.visits s (hs.change_site site)
  within := h.within
  marksAll s hs := h.marksAll s (hs.change_site site)
  settled s hs := h.settled s (hs.change_site site)

theorem Traces.noErrors (h : Traces f p q us parts) {s : State} (hs : Tracks s p)
    (hnone : (f s).errors = []) : s.errors = [] :=
  List.prefix_nil.1 (hnone ▸ (h.reports s hs).grows)

theorem Traces.comp (hf : Traces f p q us parts) (hg : Traces g q r vs parts') :
    Traces (fun s => g (f s)) p r (us ++ vs) (parts ++ parts') where
  walks := hf.walks.comp hg.walks
  height := hg.height.trans hf.height
  deeper u hu := (List.mem_append.1 hu).elim (hf.deeper u) fun hv => hf.height ▸ hg.deeper u hv
  reports s hs := by
    rw [List.flatMap_append]
    exact (hf.reports s hs).comp (hg.reports (f s) (hf.walks s hs).1)
  marks s hs height name h := by
    rw [hg.marks (f s) (hf.walks s hs).1 height name (by rwa [hf.height]),
      hf.marks s hs height name h, Option.map_map]
    congr 1
    funext entry
    exact (marked_append us vs height name entry).symm
  visits s hs part hpart := by
    have htracks := (hf.walks s hs).1
    rcases List.mem_append.1 hpart with hfirst | hsecond
    · obtain ⟨s', hs', hprefix⟩ := hf.visits s hs part hfirst
      exact ⟨s', hs', hprefix.trans (hg.reports (f s) htracks).grows⟩
    · exact hg.visits (f s) htracks part hsecond
  within part hpart := by
    rcases List.mem_append.1 hpart with hfirst | hsecond
    · exact List.subset_append_of_subset_left _ (hf.within part hfirst)
    · exact List.subset_append_of_subset_right _ (hg.within part hsecond)

theorem Inspects.comp (hf : Inspects f p us parts) (hg : Inspects g p vs parts') :
    Inspects (fun s => g (f s)) p (us ++ vs) (parts ++ parts') where
  toTraces := hf.toTraces.comp hg.toTraces
  marksAll s hs height name := by
    rw [hg.marksAll (f s) (hf.walks s hs).1 height name, hf.marksAll s hs height name,
      Option.map_map]
    congr 1
    funext entry
    exact (marked_append us vs height name entry).symm
  settled s hs herrors before r id name after hsplit hheight entry hentry hdeclared := by
    have htracks := (hf.walks s hs).1
    -- a read in the second part comes after all of the first, which may have marked the local
    have hlater : ∀ between, vs = between ++ (r, .read id name) :: after → before = us ++ between →
        (p.scopes.length - 1, name.lexeme) ∈ before.filterMap reads? := by
      intro between hvs hbefore
      rw [hbefore, List.filterMap_append, List.mem_append]
      by_cases hread : (p.scopes.length - 1, name.lexeme) ∈ us.filterMap reads?
      · exact .inl hread
      · have hkept : localAt (f s).scopes (p.scopes.length - 1) name.lexeme = some entry := by
          rw [hf.marksAll s hs, hentry, Option.map_some, marked, if_neg hread]
        exact .inr (hg.settled (f s) htracks herrors between r id name after hvs hheight entry
          hkept hdeclared)
    rcases List.append_eq_append_iff.1 hsplit with ⟨between, hbefore, hvs⟩ | ⟨rest, hus, hrest⟩
    · exact hlater between hvs hbefore
    · cases rest with
      | nil => exact hlater [] hrest.symm (by simpa using hus.symm)
      | cons first rest =>
          obtain ⟨rfl, -⟩ := List.cons.inj hrest
          exact hf.settled s hs (hg.noErrors htracks herrors) before r id name rest hus hheight
            entry hentry hdeclared

/-- A step that reads nothing. -/
theorem traces_quiet (hwalks : Walks f p q []) (hheight : q.scopes.length = p.scopes.length)
    (hreports : ∀ s, Tracks s p → Reports f s [])
    (hmarks : ∀ s, Tracks s p → ∀ height name, height + 1 < p.scopes.length →
      localAt (f s).scopes height name = localAt s.scopes height name) :
    Traces f p q [] [] where
  walks := hwalks
  height := hheight
  deeper _ hu := absurd hu List.not_mem_nil
  reports := hreports
  marks s hs height name h := by simp [hmarks s hs height name h]
  visits _ _ _ hpart := absurd hpart List.not_mem_nil
  within _ hpart := absurd hpart List.not_mem_nil

/-- An expression without reads in the innermost scope. -/
theorem Traces.inspects (h : Traces f p p us parts)
    (hmarks : ∀ s, Tracks s p → ∀ height name,
      localAt (f s).scopes height name = (localAt s.scopes height name).map (marked us height name))
    (hnone : ∀ u ∈ us, ∀ id name, u.2 = .read id name → u.1.scopes.length ≠ p.scopes.length) :
    Inspects f p us parts where
  toTraces := h
  marksAll := hmarks
  settled s _ _ before q id name after hus hheight :=
    absurd hheight (hnone (q, .read id name) (by simp [hus]) id name rfl)

theorem inspects_id (p : Place) : Inspects (fun s => s) p [] [] := by
  refine (traces_quiet (walks_id p) rfl (fun _ _ => reports_quiet rfl) fun _ _ _ _ _ =>
    rfl).inspects (fun _ _ _ _ => ?_) fun _ hu => ?_
  · simp
  · exact absurd hu List.not_mem_nil

/-- A use that resolving neither reports, nor looks up, nor reads. -/
structure Silent (u : Place × Use) : Prop where
  binding : binding? u = none
  accepted : Accepted u.1 u.2
  reads : reads? u = none
  misplaced : misplaced u = []

theorem silent_declare (p : Place) (name : Token) : Silent (p, .declare name) :=
  ⟨rfl, trivial, rfl, rfl⟩

theorem silent_reference (p : Place) (expr : Expr) : Silent (p, .reference expr) :=
  ⟨rfl, trivial, rfl, rfl⟩

theorem Traces.cons_silent {u : Place × Use} (h : Traces f p q us parts) (hsilent : Silent u)
    (hdeeper : p.scopes.length ≤ u.1.scopes.length) :
    Traces f p q (u :: us) parts where
  walks := h.walks.cons_silent hsilent.binding hsilent.accepted
  height := h.height
  deeper v hv := by
    rcases List.mem_cons.1 hv with rfl | hold
    · exact hdeeper
    · exact h.deeper v hold
  reports s hs := by
    rw [List.flatMap_cons, hsilent.misplaced, List.nil_append]
    exact h.reports s hs
  marks s hs height name hlt := by
    rw [marked_cons_silent hsilent.reads]
    exact h.marks s hs height name hlt
  visits := h.visits
  within part hpart := List.subset_cons_of_subset _ (h.within part hpart)

theorem Inspects.cons_silent {u : Place × Use} (h : Inspects f p us parts) (hsilent : Silent u)
    (hdeeper : p.scopes.length ≤ u.1.scopes.length) :
    Inspects f p (u :: us) parts where
  toTraces := h.toTraces.cons_silent hsilent hdeeper
  marksAll s hs height name := by
    rw [marked_cons_silent hsilent.reads]
    exact h.marksAll s hs height name
  settled s hs herrors before q id name after hsplit hheight entry hentry hdeclared := by
    cases before with
    | nil =>
        -- a read is looked up, so it is not the silent use
        obtain ⟨hu, -⟩ := List.cons.inj hsplit
        have hbinding := hsilent.binding
        rw [hu] at hbinding
        cases hbinding
    | cons first before =>
        obtain ⟨rfl, hrest⟩ := List.cons.inj hsplit
        rw [List.filterMap_cons_none hsilent.reads]
        exact h.settled s hs herrors before q id name after hrest hheight entry hentry hdeclared

/-- Parameters are listed in front of what the body of their function uses. -/
theorem Traces.append_params (h : Traces f p q us parts) (params : List Token) :
    Traces f p q (params.map (fun param => (p, .declare param)) ++ us) parts := by
  induction params with
  | nil => exact h
  | cons param rest ih => exact ih.cons_silent (silent_declare p param) (Nat.le_refl _)

/-- A statement is walked from the place before it. -/
theorem Traces.part {statement : Stmt} (h : Traces (stmt statement) p q (statement.uses p) parts) :
    Traces (stmt statement) p q (statement.uses p) ((p, statement) :: parts) where
  walks := h.walks
  height := h.height
  deeper := h.deeper
  reports := h.reports
  marks := h.marks
  visits s hs part hpart := by
    rcases List.mem_cons.1 hpart with rfl | hinside
    · exact ⟨s, hs, List.prefix_refl _⟩
    · exact h.visits s hs part hinside
  within part hpart := by
    rcases List.mem_cons.1 hpart with rfl | hinside
    · exact List.Subset.refl _
    · exact h.within part hinside

/-! ### Lookups -/

section LookUp

variable {p : Place} {use : Use} {id : Nat} {name : String} {isRead : Bool}

/-- Looking a name up marks the nearest local of that name, if it is for a read. -/
theorem localAt_lookUp
    (hreads : reads? (p, use) = if isRead then (p.height? name).map (·, name) else none) {s : State}
    (hs : Tracks s p) (height : Nat) (other : String) :
    localAt (s.lookUp id name isRead).scopes height other =
      (localAt s.scopes height other).map (marked [(p, use)] height other) := by
  show localAt (if isRead then markRead name s.scopes else s.scopes) height other = _
  cases isRead with
  | false =>
      rw [marked_cons_silent hreads, marked_nil, Option.map_id, id_eq]
      rfl
  | true =>
      have hheight : (State.distance? name s.scopes).map (s.scopes.length - 1 - ·) =
          p.height? name := by
        rw [distance?_eq hs.scopes, hs.scopes.length_eq]
        rfl
      rw [if_pos rfl, localAt_markRead, hheight]
      congr 1
      funext entry
      simp only [marked, mem_filterMap_singleton, hreads, if_true]
      cases p.height? name with
      | none => simp
      | some found => simp [eq_comm]

theorem traces_lookUp (haccepted : Accepted p use) (hlookup : use.lookup? = some (id, name))
    (hreads : reads? (p, use) = if isRead then (p.height? name).map (·, name) else none)
    (hplace : misplaced (p, use) = []) :
    Traces (fun s => s.lookUp id name isRead) p p [(p, use)] [] where
  walks := walks_lookUp p use isRead haccepted hlookup
  height := rfl
  deeper _ hu := (List.mem_singleton.1 hu) ▸ Nat.le_refl _
  reports _ _ := by
    rw [List.flatMap_cons, hplace, List.flatMap_nil, List.append_nil]
    exact reports_quiet rfl
  marks _ hs height other _ := localAt_lookUp hreads hs height other
  visits _ _ _ hpart := absurd hpart List.not_mem_nil
  within _ hpart := absurd hpart List.not_mem_nil

theorem inspects_lookUp (haccepted : Accepted p use) (hlookup : use.lookup? = some (id, name))
    (hreads : reads? (p, use) = if isRead then (p.height? name).map (·, name) else none)
    (hplace : misplaced (p, use) = []) (hnone : ∀ id name, use ≠ .read id name) :
    Inspects (fun s => s.lookUp id name isRead) p [(p, use)] [] := by
  refine (traces_lookUp haccepted hlookup hreads hplace).inspects
    (fun s hs => localAt_lookUp hreads hs) fun u hu id name huse => ?_
  rw [List.mem_singleton.1 hu] at huse
  exact absurd huse (hnone id name)

end LookUp

theorem localAt_error (s : State) (token : Token) (cause : ResolveError.Cause) :
    localAt (s.error token cause).scopes = localAt s.scopes := rfl

/-- A use that is reported for its place and not looked up. -/
theorem inspects_refused (p : Place) (use : Use) (token : Token) (cause : ResolveError.Cause)
    (hbinding : binding? (p, use) = none) (hreads : reads? (p, use) = none)
    (hplace : misplaced (p, use) = [⟨cause, token⟩]) (hcause : ofPlace ⟨cause, token⟩ = true) :
    Inspects (fun s => s.error token cause) p [(p, use)] [] := by
  have hmarks : ∀ s : State, ∀ height name,
      localAt (s.error token cause).scopes height name =
      (localAt s.scopes height name).map (marked [(p, use)] height name) := by
    intro s height name
    rw [marked_cons_silent hreads, marked_nil, Option.map_id, id_eq, localAt_error]
  have htraces : Traces (fun s => s.error token cause) p p [(p, use)] [] := {
    walks := walks_refused p use token cause hbinding
    height := rfl
    deeper := fun _ hu => (List.mem_singleton.1 hu) ▸ Nat.le_refl _
    reports := fun s _ => by
      have herror := reports_error s token cause
      rw [List.filter_singleton, hcause] at herror
      rw [List.flatMap_cons, hplace, List.flatMap_nil, List.append_nil]
      exact herror
    marks := fun s _ height name _ => hmarks s height name
    visits := fun _ _ _ hpart => absurd hpart List.not_mem_nil
    within := fun _ hpart => absurd hpart List.not_mem_nil }
  refine htraces.inspects (fun s _ => hmarks s) fun u hu id name huse => ?_
  rw [List.mem_singleton.1 hu] at huse
  subst huse
  cases hbinding

/-- A part of the walk that may report something else and does nothing more. -/
theorem inspects_report (p : Place) (found : State → Prop) [DecidablePred found] (token : Token)
    {cause : ResolveError.Cause} (hcause : ofPlace ⟨cause, token⟩ = false) :
    Inspects (fun s => if found s then s.error token cause else s) p [] [] := by
  have hmarks : ∀ s : State, localAt (if found s then s.error token cause else s).scopes =
      localAt s.scopes := by
    intro s
    split <;> rfl
  have hreports : ∀ s, Tracks s p →
      Reports (fun s => if found s then s.error token cause else s) s [] := by
    intro s _
    by_cases hfound : found s
    · refine ⟨[⟨cause, token⟩], by simp [hfound], ?_⟩
      rw [List.filter_singleton, hcause]
      rfl
    · exact reports_quiet (by simp [hfound])
  refine (traces_quiet (walks_report p found token cause) rfl hreports fun s _ height name _ =>
    ?_).inspects (fun s _ height name => ?_) ?_
  · rw [hmarks s]
  · rw [hmarks s, marked_nil, Option.map_id, id_eq]
  · exact fun _ hu => absurd hu List.not_mem_nil

/-- A read is checked in the innermost scope and then looked up. -/
theorem inspects_resolveVariable (id : Nat) (name : Token) (p : Place) :
    Inspects (resolveVariable id name) p [(p, .read id name)] [] := by
  have hreport : Inspects (fun s => if s.inOwnInitializer name.lexeme = true then
      s.error name .readInOwnInitializer else s) p [] [] :=
    inspects_report p _ name rfl
  have hlookup : Traces (fun s => s.lookUp id name.lexeme true) p p [(p, .read id name)] [] :=
    traces_lookUp trivial rfl rfl rfl
  refine { toTraces := hreport.toTraces.comp hlookup, marksAll := fun s hs height other => ?_,
           settled := ?_ }
  · have hcheck := hreport.marksAll s hs height other
    rw [marked_nil, Option.map_id, id_eq] at hcheck
    rw [← hcheck]
    exact localAt_lookUp rfl (hreport.walks s hs).1 height other
  · intro s hs herrors before q id' name' after hsplit hheight entry hentry hdeclared
    obtain ⟨rfl, hrest⟩ | ⟨_, -, hrest⟩ := List.cons_eq_append_iff.1 hsplit
    · obtain ⟨hu, -⟩ := List.cons.inj hrest
      cases hu
      -- the innermost scope holds the local and it has no value, so the check reports
      have hown : s.inOwnInitializer name.lexeme = true := by
        cases hstack : s.scopes with
        | nil =>
            rw [hstack] at hentry
            cases hentry
        | cons scope outer =>
            have hlength : p.scopes.length - 1 = outer.length := by
              rw [← hs.scopes.length_eq, hstack]
              rfl
            rw [hstack, hlength, localAt_innermost] at hentry
            simp [State.inOwnInitializer, hstack, hentry, hdeclared]
      simp [resolveVariable, hown, State.lookUp] at herrors
    · simp at hrest

theorem inspects_resolveThis (id : Nat) (keyword : Token) (p : Place) :
    Inspects (resolveThis id keyword) p [(p, .this id keyword)] [] := by
  by_cases hkind : p.classKind = .none
  · have hrefused :=
      inspects_refused p (.this id keyword) keyword .thisOutsideClass (if_pos hkind) (if_pos hkind)
        (if_pos hkind) rfl
    exact hrefused.onTracked fun s hs => by rw [resolveThis, if_pos (hs.classKind.trans hkind)]
  · have hlookup : Inspects (fun s => s.lookUp id keyword.lexeme true) p
        [(p, .this id keyword)] [] :=
      inspects_lookUp hkind rfl (if_neg hkind) (if_neg hkind) (by simp)
    exact hlookup.onTracked fun s hs => by
      rw [resolveThis, if_neg fun h => hkind (hs.classKind.symm.trans h)]

theorem inspects_resolveSuper (id : Nat) (keyword : Token) (p : Place) :
    Inspects (resolveSuper id keyword) p [(p, .super id keyword)] [] := by
  cases hkind : p.classKind with
  | none =>
      have hrefused : Inspects (fun s => s.error keyword .superOutsideClass) p
          [(p, .super id keyword)] [] :=
        inspects_refused p _ keyword _ (by simp [binding?, hkind]) (by simp [reads?, hkind])
          (by simp [misplaced, hkind]) rfl
      exact hrefused.onTracked fun s hs => by rw [resolveSuper, hs.classKind, hkind]
  | plain =>
      have hrefused : Inspects (fun s => s.error keyword .superWithoutSuperclass) p
          [(p, .super id keyword)] [] :=
        inspects_refused p _ keyword _ (by simp [binding?, hkind]) (by simp [reads?, hkind])
          (by simp [misplaced, hkind]) rfl
      exact hrefused.onTracked fun s hs => by rw [resolveSuper, hs.classKind, hkind]
  | subclass =>
      have hlookup : Inspects (fun s => s.lookUp id keyword.lexeme true) p
          [(p, .super id keyword)] [] :=
        inspects_lookUp hkind rfl (by simp [reads?, hkind]) (by simp [misplaced, hkind]) (by simp)
      exact hlookup.onTracked fun s hs => by rw [resolveSuper, hs.classKind, hkind]

theorem inspects_jump (keyword : Token) (kind : Jump) (p : Place) :
    Inspects (fun s => if s.loopDepth = 0 then s.error keyword (.jumpOutsideLoop kind) else s) p
      [(p, .jump keyword kind)] [] := by
  cases hloop : p.inLoop with
  | false =>
      have hrefused : Inspects (fun s => s.error keyword (.jumpOutsideLoop kind)) p
          [(p, .jump keyword kind)] [] :=
        inspects_refused p _ keyword _ rfl rfl (by simp [misplaced, hloop]) rfl
      exact hrefused.onTracked fun s hs => if_pos (hs.loops.2 hloop)
  | true =>
      have hsilent : Silent (p, .jump keyword kind) := ⟨rfl, hloop, rfl, by simp [misplaced, hloop]⟩
      refine ((inspects_id p).cons_silent hsilent (Nat.le_refl _)).onTracked fun s hs =>
        if_neg fun h => ?_
      exact absurd (hs.loops.1 h) (by simp [hloop])

theorem checkReturn_eq (keyword : Token) (hasValue : Bool) (s : State) :
    (checkReturn keyword hasValue s).scopes = s.scopes ∧
      (checkReturn keyword hasValue s).errors =
      s.errors ++ ((if s.functionKind = .none then [⟨.returnAtTopLevel, keyword⟩] else []) ++
        if hasValue && s.functionKind == .initializer then
          [⟨.valueFromInitializer, keyword⟩] else []) := by
  obtain ⟨scopes, functionKind, classKind, loopDepth, errors, bindings⟩ := s
  cases functionKind <;> cases hasValue <;> simp [checkReturn, State.error]

theorem inspects_checkReturn (keyword : Token) (hasValue : Bool) (p : Place) :
    Inspects (checkReturn keyword hasValue) p [(p, .returnValue keyword hasValue)] [] := by
  have hmarks : ∀ s : State, ∀ height name,
      localAt (checkReturn keyword hasValue s).scopes height name =
      (localAt s.scopes height name).map
      (marked [(p, .returnValue keyword hasValue)] height name) := by
    intro s height name
    rw [marked_cons_silent rfl, marked_nil, Option.map_id, id_eq,
      (checkReturn_eq keyword hasValue s).1]
  have hreports : ∀ s, Tracks s p →
      Reports (checkReturn keyword hasValue) s (misplaced (p, .returnValue keyword hasValue)) := by
    intro s hs
    refine ⟨_, (checkReturn_eq keyword hasValue s).2, ?_⟩
    rw [hs.functionKind, misplaced, List.filter_append]
    congr 1 <;> split <;> rfl
  have htraces : Traces (checkReturn keyword hasValue) p p
      [(p, .returnValue keyword hasValue)] [] := {
    walks := walks_checkReturn keyword hasValue p
    height := rfl
    deeper := fun _ hu => (List.mem_singleton.1 hu) ▸ Nat.le_refl _
    reports := fun s hs => by
      rw [List.flatMap_cons, List.flatMap_nil, List.append_nil]
      exact hreports s hs
    marks := fun s _ height name _ => hmarks s height name
    visits := fun _ _ _ hpart => absurd hpart List.not_mem_nil
    within := fun _ hpart => absurd hpart List.not_mem_nil }
  refine htraces.inspects (fun s _ => hmarks s) fun u hu id name huse => ?_
  rw [List.mem_singleton.1 hu] at huse
  cases huse

theorem inspects_checkSuperclass (name : Token) (superclass : Expr) (p : Place) :
    Inspects (checkSuperclass name superclass) p [] [] := by
  unfold checkSuperclass
  cases superclass.name? with
  | none => exact inspects_id p
  | some parent => exact inspects_report p (fun _ => parent.lexeme = name.lexeme) parent rfl

/-! ### Declaring -/

theorem scopes_declare (s : State) (name : Token) (mustBeRead : Bool) :
    (s.declare name mustBeRead).scopes.tail = s.scopes.tail ∧
      (s.declare name mustBeRead).scopes.length = s.scopes.length := by
  unfold State.declare
  split
  · exact ⟨rfl, rfl⟩
  next hstack =>
    split
    · exact ⟨rfl, rfl⟩
    · simp [hstack]

theorem scopes_define (s : State) (name : Token) :
    (s.define name).scopes.tail = s.scopes.tail ∧ (s.define name).scopes.length = s.scopes.length ∧
      (s.define name).errors = s.errors := by
  unfold State.define
  split
  · exact ⟨rfl, rfl, rfl⟩
  next hstack =>
    split
    · split
      · simp [hstack]
      · exact ⟨rfl, rfl, rfl⟩
    · exact ⟨rfl, rfl, rfl⟩

theorem localAt_of_tail {scopes scopes' : List Scope} (htail : scopes'.tail = scopes.tail)
    (hlength : scopes'.length = scopes.length) {height : Nat} (h : height + 1 < scopes.length)
    (name : String) : localAt scopes' height name = localAt scopes height name := by
  rw [localAt_tail (by rwa [hlength]), localAt_tail h, htail]

theorem reports_declare (s : State) (name : Token) (mustBeRead : Bool) :
    Reports (fun s => s.declare name mustBeRead) s [] := by
  cases hstack : s.scopes with
  | nil => exact reports_quiet (by simp only [State.declare, hstack])
  | cons scope outer =>
      by_cases hold : scope.contains name.lexeme = true
      · exact ⟨[⟨.redeclared, name⟩], by simp [State.declare, hstack, hold], rfl⟩
      · exact reports_quiet (by simp [State.declare, hstack, hold])

theorem traces_declare (name : Token) (mustBeRead : Bool) (p : Place) :
    Traces (fun s => s.declare name mustBeRead) p (p.declare name) [] [] := by
  refine traces_quiet (walks_declare name mustBeRead p) (Place.grows_declare name p).height
    (fun s _ => reports_declare s name mustBeRead) ?_
  intro s hs height other h
  obtain ⟨htail, hlength⟩ := scopes_declare s name mustBeRead
  exact localAt_of_tail htail hlength (by rwa [hs.scopes.length_eq]) other

theorem traces_define (name : Token) (p : Place) : Traces (fun s => s.define name) p p [] [] := by
  refine traces_quiet (walks_define name p) rfl
    (fun s _ => reports_quiet (scopes_define s name).2.2) ?_
  intro s hs height other h
  obtain ⟨htail, hlength, -⟩ := scopes_define s name
  exact localAt_of_tail htail hlength (by rwa [hs.scopes.length_eq]) other

theorem traces_declareDefined (name : Token) (p : Place) :
    Traces (declareDefined name) p (p.declare name) [] [] :=
  (traces_declare name true p).comp (traces_define name _)

theorem traces_declareParams (params : List Token) (p : Place) :
    Traces (declareParams params) p (p.declareAll params) [] [] := by
  induction params generalizing p with
  | nil => exact (inspects_id p).toTraces
  | cons param rest ih =>
      have hfirst := (traces_declare param false p).comp (traces_define param _)
      exact hfirst.comp (ih (p.declare param))

theorem scopes_declareParams (params : List Token) (s : State) :
    (declareParams params s).scopes.tail = s.scopes.tail := by
  induction params generalizing s with
  | nil => rfl
  | cons param rest ih =>
      have hrest := ih ((s.declare param false).define param)
      rw [declareParams] at hrest
      rw [declareParams, List.foldl_cons, hrest, (scopes_define _ param).1,
        (scopes_declare s param false).1]

/-! ### Scopes of their own -/

theorem scopes_endScope (s : State) : s.endScope.scopes = s.scopes.tail := by
  cases hstack : s.scopes with
  | nil => simp [endScope, hstack]
  | cons scope outer =>
      simp only [endScope, hstack]
      exact (reportUnused_frame _ _).1

/-- A part that is walked in a scope of its own is an expression to the scopes around it. -/
theorem Traces.enclosed {opening : State → State} (close : State → State → State) {inside : Place}
    (h : Traces f inside q us parts) (hwalks : Walks (fun s => close s (f (opening s))) p p us)
    (hheight : inside.scopes.length = p.scopes.length + 1)
    (hopening : ∀ s, Tracks s p → Tracks (opening s) inside ∧ (opening s).scopes.tail = s.scopes ∧
      Reports opening s [])
    (hclose : ∀ s t, (close s t).scopes = t.endScope.scopes ∧
      (close s t).errors = t.endScope.errors) :
    Inspects (fun s => close s (f (opening s))) p us parts := by
  have hmarks : ∀ s, Tracks s p →
      ∀ height name, localAt (close s (f (opening s))).scopes height name =
      (localAt s.scopes height name).map (marked us height name) := by
    intro s hs height name
    obtain ⟨hinside, htail, -⟩ := hopening s hs
    have hlength : (f (opening s)).scopes.length = p.scopes.length + 1 := by
      rw [(h.walks _ hinside).1.scopes.length_eq, h.height, hheight]
    rw [(hclose s _).1, scopes_endScope]
    by_cases hlt : height < p.scopes.length
    · have hmarked := h.marks _ hinside height name (by omega)
      have hopened : height + 1 < (opening s).scopes.length := by
        rw [hinside.scopes.length_eq]; omega
      have hended : height + 1 < (f (opening s)).scopes.length := by omega
      rwa [localAt_tail hended, localAt_tail hopened, htail] at hmarked
    · rw [localAt_of_le (by rw [List.length_tail]; omega),
        localAt_of_le (by rw [hs.scopes.length_eq]; omega)]
      rfl
  have hdeeper : ∀ u ∈ us, p.scopes.length + 1 ≤ u.1.scopes.length :=
    fun u hu => hheight ▸ h.deeper u hu
  have htraces : Traces (fun s => close s (f (opening s))) p p us parts := {
    walks := hwalks
    height := rfl
    deeper := fun u hu => Nat.le_of_succ_le (hdeeper u hu)
    reports := fun s hs => by
      obtain ⟨hinside, -, hopened⟩ := hopening s hs
      have hreports := (hopened.comp (h.reports _ hinside)).comp (reports_endScope _)
      rw [List.nil_append, List.append_nil] at hreports
      obtain ⟨added, hadded, hfilter⟩ := hreports
      exact ⟨added, by rw [(hclose s _).2]; exact hadded, hfilter⟩
    marks := fun s hs height name _ => hmarks s hs height name
    visits := fun s hs part hpart => by
      obtain ⟨hinside, -, -⟩ := hopening s hs
      obtain ⟨s', hs', hprefix⟩ := h.visits _ hinside part hpart
      refine ⟨s', hs', hprefix.trans ?_⟩
      rw [(hclose s _).2]
      exact (reports_endScope _).grows
    within := h.within }
  refine htraces.inspects hmarks fun u hu id name _ => ?_
  have hlt := hdeeper u hu
  omega

theorem Traces.scoped {opening : State → State} {site : Site} {names : List String}
    (hopening : Walks opening p (p.enter site names) [])
    (hquiet : ∀ s, (opening s).scopes.tail = s.scopes ∧ (opening s).errors = s.errors)
    (h : Traces f (p.enter site names) q us parts) (hgrows : (p.enter site names).Grows q) :
    Inspects (fun s => (f (opening s)).endScope) p us parts := by
  refine h.enclosed (fun _ t => t.endScope) (hopening.scoped h.walks hgrows) rfl (fun s hs => ?_)
    fun _ _ => ⟨rfl, rfl⟩
  exact ⟨(hopening s hs).1, (hquiet s).1, reports_quiet (hquiet s).2⟩

theorem Traces.function {body : State → State} {kind : FunctionKind} {decl : FunctionDecl}
    (h : Traces body (p.enterFunction kind decl) q us parts)
    (hgrows : (p.enterFunction kind decl).Grows q) :
    Inspects (fun s => leaveFunction s (body (enterFunction kind decl.params s))) p us parts := by
  have hinside : (p.enterFunction kind decl).scopes.length = p.scopes.length + 1 :=
    (Place.grows_declareAll decl.params _).height
  refine h.enclosed leaveFunction (h.walks.function hgrows) hinside (fun s hs => ?_)
    fun _ _ => ⟨rfl, rfl⟩
  have hparams :=
    traces_declareParams decl.params
      (Place.enter (.function decl) [] { p with functionKind := kind, inLoop := false })
  have hkinds : Tracks { s with functionKind := kind, loopDepth := 0 }
      { p with functionKind := kind, inLoop := false } :=
    ⟨rfl, hs.classKind, by simp, hs.scopes⟩
  have hopened := (walks_beginScope (.function decl) _ _ hkinds).1
  refine ⟨(walks_enterFunction kind decl p s hs).1, scopes_declareParams decl.params _, ?_⟩
  exact hparams.reports _ hopened

/-! ### Kinds of class and loop -/

theorem traces_setClass (kind : ClassKind) (p : Place) :
    Traces (fun s => { s with classKind := kind }) p (p.inClass kind) [] [] :=
  traces_quiet (walks_setClass kind p) rfl (fun _ _ => reports_quiet rfl) fun _ _ _ _ _ => rfl

theorem Traces.restoreClass {kind : ClassKind} (h : Traces f p (q.inClass kind) us parts)
    (hgrows : p.Grows q) :
    Traces (fun s => { f s with classKind := s.classKind }) p q us parts where
  walks := h.walks.restoreClass hgrows
  height := h.height
  deeper := h.deeper
  reports := h.reports
  marks := h.marks
  visits := h.visits
  within := h.within

theorem Traces.inLoop (h : Traces f p.enterLoop q.enterLoop us parts)
    (hdepth : ∀ s, (f s).loopDepth = s.loopDepth) (hgrows : p.Grows q) :
    Traces (inLoop f) p q us parts where
  walks := h.walks.inLoop hdepth hgrows
  height := h.height
  deeper := h.deeper
  reports _ hs := h.reports _ hs.openLoop
  marks _ hs := h.marks _ hs.openLoop
  visits _ hs := h.visits _ hs.openLoop
  within := h.within

/-- The scopes of `this` and `super` are opened with their one name. -/
theorem beginImplicit_quiet (name : String) (s : State) :
    (s.beginScope.bindImplicit name).scopes.tail = s.scopes ∧
      (s.beginScope.bindImplicit name).errors = s.errors := ⟨rfl, rfl⟩

end Rules

/-! ### Whole trees -/

mutual

theorem inspects_expr : (e : Expr) → (p : Place) → Inspects (expr e) p (e.uses p) (e.parts p)
  | .literal _, p => (inspects_id p).onTracked fun s _ => by rw [expr]
  | .group inner, p => (inspects_expr inner p).onTracked fun s _ => by rw [expr]
  | .unary _ right, p => (inspects_expr right p).onTracked fun s _ => by rw [expr]
  | .binary left _ right, p =>
    ((inspects_expr left p).comp (inspects_expr right p)).onTracked fun s _ => by rw [expr]
  | .logical left _ right, p =>
    ((inspects_expr left p).comp (inspects_expr right p)).onTracked fun s _ => by rw [expr]
  | .conditional condition thenBranch elseBranch, p =>
    (((inspects_expr condition p).comp (inspects_expr thenBranch p)).comp
      (inspects_expr elseBranch p)).onTracked fun s _ => by rw [expr]
  | .variable id name, p => (inspects_resolveVariable id name p).onTracked fun s _ => by rw [expr]
  | .assign id name value, p => by
    have hwrite : Inspects (fun s => s.lookUp id name.lexeme false) p [(p, .write id name)] [] :=
      inspects_lookUp trivial rfl rfl rfl (by simp)
    have hwhole := (inspects_expr value p).comp hwrite
    rw [List.append_nil] at hwhole
    exact hwhole.onTracked fun s _ => by rw [expr]
  | .call callee _ arguments, p =>
    ((inspects_expr callee p).comp (inspects_exprs arguments p)).onTracked fun s _ => by rw [expr]
  | .function decl, p => (inspects_function .function decl p).onTracked fun s _ => by rw [expr]
  | .get object _, p => (inspects_expr object p).onTracked fun s _ => by rw [expr]
  | .set object _ value, p =>
    ((inspects_expr value p).comp (inspects_expr object p)).onTracked fun s _ => by rw [expr]
  | .this id keyword, p => (inspects_resolveThis id keyword p).onTracked fun s _ => by rw [expr]
  | .super id keyword _, p => (inspects_resolveSuper id keyword p).onTracked fun s _ => by rw [expr]

theorem inspects_exprs :
    (es : List Expr) → (p : Place) → Inspects (exprs es) p (Expr.usesAll es p) (Expr.partsAll es p)
  | [], p => (inspects_id p).onTracked fun s _ => by rw [exprs]
  | first :: rest, p =>
    ((inspects_expr first p).comp (inspects_exprs rest p)).onTracked fun s _ => by rw [exprs]

theorem inspects_expr? :
    (e : Option Expr) → (p : Place) → Inspects (expr? e) p (Expr.uses? e p) (Expr.parts? e p)
  | none, p => (inspects_id p).onTracked fun s _ => by rw [expr?]
  | some e, p => (inspects_expr e p).onTracked fun s _ => by rw [expr?]

theorem inspects_references :
    (es : List Expr) → (p : Place) →
      Inspects (exprs es) p (Expr.references es p) (Expr.partsAll es p)
  | [], p => (inspects_id p).onTracked fun s _ => by rw [exprs]
  | first :: rest, p => by
    have hboth := (inspects_expr first p).comp (inspects_references rest p)
    exact (hboth.cons_silent (silent_reference p first) (Nat.le_refl _)).onTracked fun s _ => by
      rw [exprs]

theorem inspects_function (kind : FunctionKind) : (decl : FunctionDecl) → (p : Place) →
    Inspects (function kind decl) p (decl.uses kind p) (decl.parts kind p)
  | ⟨name, params, body, isGetter⟩, p => by
    have hbody := traces_stmts body (p.enterFunction kind ⟨name, params, body, isGetter⟩)
    exact ((hbody.append_params params).function (Stmt.grows_afterAll body _)).onTracked
      fun s _ => by rw [function]

theorem inspects_methods (site : Site) : (decls : List FunctionDecl) → (p : Place) →
    Inspects (methods decls) (p.enter site ["this"]) (FunctionDecl.usesAll .ofInstance decls p)
    (FunctionDecl.partsAll .ofInstance decls p)
  | [], p => (inspects_id _).onTracked fun s _ => by rw [methods]
  | decl :: rest, p =>
    ((inspects_function (methodKind decl) decl
      (p.enter (.receiver .ofInstance decl) ["this"])).change_site site |>.comp
      (inspects_methods site rest p)).onTracked fun s _ => by rw [methods]

theorem inspects_classMethods (site : Site) : (decls : List FunctionDecl) → (p : Place) →
    Inspects (classMethods decls) (p.enter site ["this"]) (FunctionDecl.usesAll .ofClass decls p)
    (FunctionDecl.partsAll .ofClass decls p)
  | [], p => (inspects_id _).onTracked fun s _ => by rw [classMethods]
  | decl :: rest, p =>
    ((inspects_function .method decl (p.enter (.receiver .ofClass decl) ["this"])).change_site site
      |>.comp
      (inspects_classMethods site rest p)).onTracked fun s _ => by rw [classMethods]

theorem inspects_members :
    (body : ClassBody) → (p : Place) →
      Inspects (members body) p (body.memberUses p) (body.memberParts p)
  | ⟨_, instanceMethods, staticMethods⟩, p => by
    have hmembers := (inspects_methods (.block []) instanceMethods p).comp
      (inspects_classMethods (.block []) staticMethods p)
    have hscoped := hmembers.toTraces.scoped (walks_beginImplicit "this" (.block []) p)
      (beginImplicit_quiet "this") (.refl _)
    exact hscoped.onTracked fun s _ => by rw [members]

theorem inspects_uses :
    (body : ClassBody) → (p : Place) → Inspects (uses body) p (body.traitUses p) (body.traitParts p)
  | ⟨traits, _, _⟩, p => (inspects_references traits p).onTracked fun s _ => by rw [uses]

theorem traces_stmt :
    (statement : Stmt) → (p : Place) →
      Traces (stmt statement) p (statement.after p) (statement.uses p) (statement.parts p)
  | .expression value, p =>
    ((inspects_expr value p).toTraces.onTracked fun s _ => by rw [stmt]).part
  | .print value, p => ((inspects_expr value p).toTraces.onTracked fun s _ => by rw [stmt]).part
  | .variable name initial, p => by
    have hdeclare :=
      (traces_declare name true p).cons_silent (silent_declare p name) (Nat.le_refl _)
    have hwhole := (hdeclare.comp (inspects_expr? initial _).toTraces).comp (traces_define name _)
    rw [List.append_nil, List.append_nil] at hwhole
    exact (hwhole.onTracked fun s _ => by rw [stmt]).part
  | .block statements, p => by
    have hscoped := (traces_stmts statements _).scoped (walks_beginScope (.block statements) p)
      (fun _ => ⟨rfl, rfl⟩) (Stmt.grows_afterAll statements _)
    exact (hscoped.toTraces.onTracked fun s _ => by rw [stmt]).part
  | .ifElse condition thenBranch elseBranch, p => by
    have hwhole := ((inspects_expr condition p).toTraces.comp (traces_stmt thenBranch p)).comp
      (traces_stmt? elseBranch _)
    exact (hwhole.onTracked fun s _ => by rw [stmt]).part
  | .whileLoop condition body, p => by
    have hbody := traces_stmt body p.enterLoop
    rw [Stmt.after_enterLoop] at hbody
    have hwhole := (inspects_expr condition p).toTraces.comp
      (hbody.inLoop (loopDepth_stmt body) (body.grows_after p))
    exact (hwhole.onTracked fun s _ => by rw [stmt]).part
  | .forLoop initial condition increment body, p => by
    let first := p.enter (.loop (.forLoop initial condition increment body)) []
    have hinitial := traces_stmt? initial first
    have hbody := traces_stmt body (Stmt.after? initial first).enterLoop
    rw [Stmt.after_enterLoop] at hbody
    have hclauses := (hinitial.comp (inspects_expr? condition _).toTraces).comp
      (inspects_expr? increment _).toTraces
    have hinside := hclauses.comp (hbody.inLoop (loopDepth_stmt body) (body.grows_after _))
    have hscoped := hinside.scoped (walks_beginScope _ p) (fun _ => ⟨rfl, rfl⟩)
      ((Stmt.grows_after? initial first).trans (body.grows_after _))
    exact (hscoped.toTraces.onTracked fun s _ => by rw [stmt]).part
  | .jump keyword kind, p =>
    ((inspects_jump keyword kind p).toTraces.onTracked fun s _ => by rw [stmt]).part
  | .function ⟨none, params, body, isGetter⟩, p =>
    ((inspects_function .function ⟨none, params, body, isGetter⟩ p).toTraces.onTracked
      fun s _ => by rw [stmt]).part
  | .function ⟨some name, params, body, isGetter⟩, p => by
    have hdeclare :=
      (traces_declareDefined name p).cons_silent (silent_declare p name) (Nat.le_refl _)
    have hwhole :=
      hdeclare.comp (inspects_function .function ⟨some name, params, body, isGetter⟩ _).toTraces
    exact (hwhole.onTracked fun s _ => by rw [stmt]).part
  | .returnValue keyword value, p => by
    have hwhole :=
      (inspects_checkReturn keyword value.isSome p).toTraces.comp (inspects_expr? value p).toTraces
    exact (hwhole.onTracked fun s _ => by rw [stmt]).part
  | .classDecl name none body, p => by
    have hname := (traces_setClass .plain p).comp (traces_declareDefined name _)
    rw [Place.declare_inClass] at hname
    have hdeclare := hname.cons_silent (silent_declare p name) (Nat.le_refl _)
    have hwhole :=
      (hdeclare.comp (inspects_uses body _).toTraces).comp (inspects_members body _).toTraces
    exact ((hwhole.restoreClass (Place.grows_declare name p)).onTracked
      fun s _ => by rw [stmt]).part
  | .classDecl name (some superclass) body, p => by
    have hname := (traces_setClass .plain p).comp (traces_declareDefined name _)
    rw [Place.declare_inClass] at hname
    have hkind := (hname.comp (inspects_checkSuperclass name superclass _).toTraces).comp
      (traces_setClass .subclass _)
    have hparent := (inspects_expr superclass ((p.declare name).inClass .subclass)).cons_silent
      (silent_reference ((p.declare name).inClass .subclass) superclass) (Nat.le_refl _)
    have hdeclare :=
      (hkind.comp hparent.toTraces).cons_silent (silent_declare p name) (Nat.le_refl _)
    have hopening :=
      walks_beginImplicit "super" (.superclass (.classDecl name (some superclass) body))
      ((p.declare name).inClass .subclass)
    have hmembers :=
      (inspects_members body _).toTraces.scoped hopening (beginImplicit_quiet "super") (.refl _)
    have hwhole := (hdeclare.comp (inspects_uses body _).toTraces).comp hmembers.toTraces
    exact ((hwhole.restoreClass (Place.grows_declare name p)).onTracked
      fun s _ => by rw [stmt]).part
  | .traitDecl name body, p => by
    have hname := (traces_declareDefined name p).comp (traces_setClass .plain _)
    have hdeclare := hname.cons_silent (silent_declare p name) (Nat.le_refl _)
    have hwhole :=
      (hdeclare.comp (inspects_uses body _).toTraces).comp (inspects_members body _).toTraces
    exact ((hwhole.restoreClass (Place.grows_declare name p)).onTracked
      fun s _ => by rw [stmt]).part

theorem traces_stmts : (statements : List Stmt) → (p : Place) →
    Traces (stmts statements) p (Stmt.afterAll statements p) (Stmt.usesAll statements p)
    (Stmt.partsAll statements p)
  | [], p => (inspects_id p).toTraces.onTracked fun s _ => by rw [stmts]
  | first :: rest, p =>
    ((traces_stmt first p).comp (traces_stmts rest _)).onTracked fun s _ => by rw [stmts]

theorem traces_stmt? : (statement : Option Stmt) → (p : Place) →
    Traces (stmt? statement) p (Stmt.after? statement p) (Stmt.uses? statement p)
    (Stmt.parts? statement p)
  | none, p => (inspects_id p).toTraces.onTracked fun s _ => by rw [stmt?]
  | some statement, p => (traces_stmt statement p).onTracked fun s _ => by rw [stmt?]

end

end Resolve
end TraitScript
