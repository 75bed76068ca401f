import Mathlib.Data.List.Forall2
import TraitScript.Proofs.Scope.Balance
import TraitScript.Proofs.Scope.Place

/-!
# Resolving follows the places

The walk of the resolver is compared with the places of the text. A state of the walk tracks a place
when its stack of tables holds the names of the scopes around that place and its kinds of function,
class and loop are those of the place. Every part of a tree takes a state that tracks the place
before it to one that tracks the place after it, records what the uses in between say, and ends
without an error only if all these uses are accepted.
-/

namespace TraitScript.Resolve

open State

/-! ### What resolving says about a use -/

/-- What is recorded about a use: `this` and `super` are looked up only where they are allowed. -/
def binding? : Place × Use → Option Binding
  | (p, .read id name) | (p, .write id name) => some ⟨id, name.lexeme, p.distance? name.lexeme⟩
  | (p, .this id keyword) =>
    if p.classKind = .none then none else some ⟨id, keyword.lexeme, p.distance? keyword.lexeme⟩
  | (p, .super id keyword) =>
    if p.classKind = .subclass then some ⟨id, keyword.lexeme, p.distance? keyword.lexeme⟩ else none
  | _ => none

/-- What the place of an accepted use must be like. -/
def Accepted : Place → Use → Prop
  | p, .this .. => p.classKind ≠ .none
  | p, .super .. => p.classKind = .subclass
  | p, .jump .. => p.inLoop = true
  | p, .returnValue .. => p.functionKind ≠ .none
  | _, _ => True

theorem binding?_of_lookup? {p : Place} {use : Use} {id : Nat} {name : String}
    (haccepted : Accepted p use) (hlookup : use.lookup? = some (id, name)) :
    binding? (p, use) = some ⟨id, name, p.distance? name⟩ := by
  cases use with
  | read _ _ | write _ _ =>
      obtain ⟨rfl, rfl⟩ : _ = id ∧ _ = name := by simpa [Use.lookup?] using hlookup
      rfl
  | this _ _ =>
      obtain ⟨rfl, rfl⟩ : _ = id ∧ _ = name := by simpa [Use.lookup?] using hlookup
      exact if_neg haccepted
  | super _ _ =>
      obtain ⟨rfl, rfl⟩ : _ = id ∧ _ = name := by simpa [Use.lookup?] using hlookup
      exact if_pos haccepted
  | declare _ | reference _ | jump _ _ | returnValue _ _ => simp [Use.lookup?] at hlookup

/-- What is recorded concerns an occurrence that is looked up. -/
theorem id?_of_binding? {p : Place} {use : Use} {b : Binding} (h : binding? (p, use) = some b) :
    use.id? = some b.id := by
  cases use with
  | read _ _ | write _ _ =>
      simp only [binding?, Option.some.injEq] at h
      subst h
      rfl
  | this _ _ =>
      by_cases hkind : p.classKind = .none
      · simp [binding?, hkind] at h
      · simp only [binding?, if_neg hkind, Option.some.injEq] at h
        subst h
        rfl
  | super _ _ =>
      by_cases hkind : p.classKind = .subclass
      · simp only [binding?, if_pos hkind, Option.some.injEq] at h
        subst h
        rfl
      · simp [binding?, hkind] at h
  | declare _ | reference _ | jump _ _ | returnValue _ _ => simp [binding?] at h

/-! ### Tracking a place -/

/-- A table of the walk holds the names of a scope. -/
def Holds (scope : Scope) (around : Place.Scope) : Prop :=
  ∀ name, scope.contains name = true ↔ name ∈ around.names

structure Tracks (s : State) (p : Place) : Prop where
  functionKind : s.functionKind = p.functionKind
  classKind : s.classKind = p.classKind
  loops : s.loopDepth = 0 ↔ p.inLoop = false
  scopes : List.Forall₂ Holds s.scopes p.scopes

theorem tracks_initial : Tracks {} .top := ⟨rfl, rfl, by decide, .nil⟩

theorem distance?_eq {name : String} {scopes : List Scope} {around : List Place.Scope}
    (h : List.Forall₂ Holds scopes around) :
    State.distance? name scopes = around.findIdx? (name ∈ ·.names) := by
  induction h with
  | nil => rfl
  | @cons scope outer _ _ hholds _ ih =>
      rw [State.distance?, List.findIdx?_cons, ih]
      by_cases hname : name ∈ outer.names
      · simp [hname, (hholds name).2 hname]
      · have : scope.contains name = false := by
          rw [← Bool.not_eq_true, hholds name]
          exact hname
        simp [hname, this]

theorem contains_of_find? {scope : Scope} {name : String} {entry : Local}
    (h : scope.find? name = some entry) :
    scope.contains name = true := by
  rw [Table.contains, h]
  rfl

/-- Changing the entry of a name that a table has changes none of its names. -/
theorem Holds.insert_old {scope : Scope} {around : Place.Scope} (h : Holds scope around)
    {name : String} (hname : scope.contains name = true) (entry : Local) :
    Holds (scope.insert name entry) around := by
  intro other
  rw [Table.contains_insert, ← h other]
  by_cases heq : name = other
  · subst heq
    simp [hname]
  · simp [heq]

theorem markRead_holds {name : String} {scopes : List Scope} {around : List Place.Scope}
    (h : List.Forall₂ Holds scopes around) : List.Forall₂ Holds (markRead name scopes) around := by
  induction h with
  | nil => exact .nil
  | @cons scope outer rest outers hholds hrest ih =>
      rw [markRead]
      cases hfind : scope.find? name with
      | some entry => exact .cons (hholds.insert_old (contains_of_find? hfind) _) hrest
      | none => exact .cons hholds ih

/-! ### Walking from place to place -/

/-- A part of the walk leads from one place to another past some uses. -/
def Walks (f : State → State) (p q : Place) (uses : Uses) : Prop :=
  ∀ s, Tracks s p → Tracks (f s) q ∧ (f s).bindings = s.bindings ++ uses.filterMap binding? ∧
    ((f s).errors = [] → s.errors = [] ∧ ∀ u ∈ uses, Accepted u.1 u.2)

theorem walks_id (p : Place) : Walks (fun s => s) p p [] :=
  fun s hs => ⟨hs, by simp, fun h => ⟨h, by simp⟩⟩

theorem Walks.comp {f g : State → State} {p q r : Place} {us vs : Uses} (hf : Walks f p q us)
    (hg : Walks g q r vs) :
    Walks (fun s => g (f s)) p r (us ++ vs) := by
  intro s hs
  obtain ⟨hq, hbindings, herrors⟩ := hf s hs
  obtain ⟨hr, hbindings', herrors'⟩ := hg (f s) hq
  refine ⟨hr, ?_, fun h => ?_⟩
  · rw [hbindings', hbindings, List.filterMap_append, List.append_assoc]
  · obtain ⟨hnone, hvs⟩ := herrors' h
    obtain ⟨hnone', hus⟩ := herrors hnone
    exact ⟨hnone', fun u hu => (List.mem_append.1 hu).elim (hus u) (hvs u)⟩

/-- A step that reports nothing and looks nothing up. -/
theorem walks_quiet {f : State → State} {p q : Place} (htracks : ∀ s, Tracks s p → Tracks (f s) q)
    (hbindings : ∀ s, (f s).bindings = s.bindings)
    (herrors : ∀ s, (f s).errors = [] → s.errors = []) : Walks f p q [] :=
  fun s hs => ⟨htracks s hs, by simp [hbindings s], fun h => ⟨herrors s h, by simp⟩⟩

/-- A use that resolving neither reports nor looks up. -/
theorem Walks.cons_silent {f : State → State} {p q r : Place} {use : Use} {us : Uses}
    (hf : Walks f p q us) (hbinding : binding? (r, use) = none) (haccepted : Accepted r use) :
    Walks f p q ((r, use) :: us) := by
  intro s hs
  obtain ⟨hq, hbindings, herrors⟩ := hf s hs
  refine ⟨hq, ?_, fun h => ?_⟩
  · rw [hbindings, List.filterMap_cons, hbinding]
  · obtain ⟨hnone, hus⟩ := herrors h
    refine ⟨hnone, fun u hu => ?_⟩
    rcases List.mem_cons.1 hu with rfl | hu
    · exact haccepted
    · exact hus u hu

@[simp] theorem errors_error (s : State) (token : Token) (cause : ResolveError.Cause) :
    (s.error token cause).errors = s.errors ++ [⟨cause, token⟩] := rfl

theorem Tracks.error {s : State} {p : Place} (h : Tracks s p) (token : Token)
    (cause : ResolveError.Cause) :
    Tracks (s.error token cause) p := ⟨h.functionKind, h.classKind, h.loops, h.scopes⟩

/-! ### Declaring -/

theorem Tracks.of_scopes {s t : State} {p q : Place} (h : Tracks s p)
    (hfunction : t.functionKind = s.functionKind) (hclass : t.classKind = s.classKind)
    (hloops : t.loopDepth = s.loopDepth) (hfunction' : q.functionKind = p.functionKind)
    (hclass' : q.classKind = p.classKind) (hloops' : q.inLoop = p.inLoop)
    (hscopes : List.Forall₂ Holds t.scopes q.scopes) :
    Tracks t q :=
  ⟨by rw [hfunction, hfunction', h.functionKind],
        by rw [hclass, hclass', h.classKind], by rw [hloops, hloops', h.loops],
    hscopes⟩

theorem walks_declare (name : Token) (mustBeRead : Bool) (p : Place) :
    Walks (fun s => s.declare name mustBeRead) p (p.declare name) [] := by
  refine walks_quiet (fun s hs => ?_) (fun s => ?_) (fun s h => ?_)
  · have hscopes := hs.scopes
    cases hstack : s.scopes with
    | nil =>
        rw [hstack] at hscopes
        have hnone : p.scopes = [] := by
          cases hp : p.scopes with
          | nil => rfl
          | cons _ _ => rw [hp] at hscopes; cases hscopes
        simpa [State.declare, Place.declare, hstack, hnone] using hs
    | cons scope outer =>
        obtain ⟨around, arounds, hp⟩ : ∃ around arounds, p.scopes = around :: arounds := by
          cases hp : p.scopes with
          | nil => rw [hstack, hp] at hscopes; cases hscopes
          | cons around arounds => exact ⟨around, arounds, rfl⟩
        rw [hstack, hp] at hscopes
        obtain ⟨hholds, hrest⟩ := List.forall₂_cons.1 hscopes
        simp only [State.declare, hstack, Place.declare, hp]
        by_cases hold : scope.contains name.lexeme = true
        · rw [if_pos hold]
          refine hs.of_scopes rfl rfl rfl rfl rfl rfl ?_
          show List.Forall₂ Holds s.scopes _
          rw [hstack]
          refine .cons (fun other => ?_) hrest
          rw [hholds other, List.mem_cons]
          refine ⟨Or.inr, fun hother => hother.elim (fun heq => ?_) id⟩
          rw [heq, ← hholds]
          exact hold
        · rw [if_neg hold]
          refine hs.of_scopes rfl rfl rfl rfl rfl rfl (.cons (fun other => ?_) hrest)
          rw [Table.contains_insert, List.mem_cons, ← hholds other, Bool.or_eq_true,
            decide_eq_true_eq, eq_comm]
  · unfold State.declare
    split
    · rfl
    · split <;> rfl
  · unfold State.declare at h
    split at h
    · exact h
    · split at h
      · simp at h
      · exact h

theorem walks_define (name : Token) (p : Place) : Walks (fun s => s.define name) p p [] := by
  refine walks_quiet (fun s hs => ?_) (fun s => ?_) (fun s h => ?_)
  · have hscopes := hs.scopes
    cases hstack : s.scopes with
    | nil => simpa [State.define, hstack] using hs
    | cons scope outer =>
        rw [hstack] at hscopes
        cases hfind : scope.find? name.lexeme with
        | none => simpa [State.define, hstack, hfind] using hs
        | some entry =>
            by_cases hdeclared : entry.progress = .declared
            · simp only [State.define, hstack, hfind, if_pos hdeclared]
              refine hs.of_scopes rfl rfl rfl rfl rfl rfl ?_
              obtain ⟨around, arounds, hholds, hrest, hp⟩ := List.forall₂_cons_left_iff.1 hscopes
              rw [hp]
              exact .cons (hholds.insert_old (contains_of_find? hfind) _) hrest
            · simpa [State.define, hstack, hfind, hdeclared] using hs
  · unfold State.define
    split
    · rfl
    · split
      · split <;> rfl
      · rfl
  · unfold State.define at h
    split at h
    · exact h
    · split at h
      · split at h <;> exact h
      · exact h

theorem walks_declareDefined (name : Token) (p : Place) :
    Walks (declareDefined name) p (p.declare name) [] :=
  (walks_declare name true p).comp (walks_define name _)

theorem walks_declareParams (params : List Token) (p : Place) :
    Walks (declareParams params) p (p.declareAll params) [] := by
  induction params generalizing p with
  | nil => exact walks_id p
  | cons param rest ih =>
      have hfirst := (walks_declare param false p).comp (walks_define param _)
      exact hfirst.comp (ih (p.declare param))

/-! ### Scopes -/

theorem walks_beginScope (site : Site) (p : Place) : Walks beginScope p (p.enter site []) [] :=
  walks_quiet (fun s hs => hs.of_scopes rfl rfl rfl rfl rfl rfl
    (.cons (fun name => by simp [Table.contains]) hs.scopes))
    (fun _ => rfl) (fun _ h => h)

theorem reportUnused_frame (tokens : List Token) (s : State) :
    (reportUnused tokens s).scopes = s.scopes ∧
      (reportUnused tokens s).functionKind = s.functionKind ∧
      (reportUnused tokens s).classKind = s.classKind ∧
      (reportUnused tokens s).loopDepth = s.loopDepth ∧
      (reportUnused tokens s).bindings = s.bindings ∧
      ((reportUnused tokens s).errors = [] → s.errors = []) := by
  induction tokens generalizing s with
  | nil => exact ⟨rfl, rfl, rfl, rfl, rfl, id⟩
  | cons token rest ih =>
      obtain ⟨hscopes, hfunction, hclass, hloops, hbindings, herrors⟩ :=
        ih (s.error token (.unusedLocal token.lexeme))
      refine ⟨hscopes, hfunction, hclass, hloops, hbindings, fun h => ?_⟩
      have := herrors h
      simp at this

theorem walks_endScope {p q : Place} {around : Place.Scope}
    (hscopes : q.scopes = around :: p.scopes) (hfunction : q.functionKind = p.functionKind)
    (hclass : q.classKind = p.classKind) (hloops : q.inLoop = p.inLoop) :
    Walks endScope q p [] := by
  refine walks_quiet (fun s hs => ?_) (fun s => ?_) (fun s h => ?_)
  · have hstack := hs.scopes
    rw [hscopes] at hstack
    obtain ⟨scope, outer, -, hrest, hcons⟩ := List.forall₂_cons_right_iff.1 hstack
    simp only [endScope, hcons]
    obtain ⟨hs1, hs2, hs3, hs4, -, -⟩ :=
      reportUnused_frame (sortTokens (unused scope)) { s with scopes := outer }
    exact hs.of_scopes hs2 hs3 hs4 hfunction.symm hclass.symm hloops.symm (by rw [hs1]; exact hrest)
  · unfold endScope
    split
    · rfl
    · exact (reportUnused_frame _ _).2.2.2.2.1
  · cases hstack : s.scopes with
    | nil => simpa [endScope, hstack] using h
    | cons scope outer =>
        simp only [endScope, hstack] at h
        exact (reportUnused_frame _ { s with scopes := outer }).2.2.2.2.2 h

/-- The names of a scope matter for the walk, not the part of the text it is for. -/
theorem Tracks.change_site {s : State} {p : Place} {site : Site} {names : List String}
    (h : Tracks s (p.enter site names)) (site' : Site) : Tracks s (p.enter site' names) := by
  obtain ⟨scope, outer, hholds, hrest, hcons⟩ := List.forall₂_cons_right_iff.1 h.scopes
  refine h.of_scopes rfl rfl rfl rfl rfl rfl ?_
  rw [hcons]
  exact .cons hholds hrest

theorem Walks.change_site {f : State → State} {p : Place} {site : Site} {names : List String}
    {us : Uses} (h : Walks f (p.enter site names) (p.enter site names) us) (site' : Site) :
    Walks f (p.enter site' names) (p.enter site' names) us := by
  intro s hs
  obtain ⟨htracks, hrest⟩ := h s (hs.change_site site)
  exact ⟨htracks.change_site site', hrest⟩

/-- The scope of `this` or `super`. -/
theorem walks_beginImplicit (name : String) (site : Site) (p : Place) :
    Walks (fun s => s.beginScope.bindImplicit name) p (p.enter site [name]) [] := by
  refine walks_quiet (fun s hs => ?_) (fun _ => rfl) (fun _ h => h)
  refine hs.of_scopes rfl rfl rfl rfl rfl rfl (.cons (fun other => ?_) hs.scopes)
  rw [Table.contains_insert, Bool.or_eq_true, decide_eq_true_eq, List.mem_singleton, eq_comm]
  simp [Table.contains]

/-- A part that is walked between the opening and the closing of a scope. -/
theorem Walks.scoped {opening f : State → State} {p q : Place} {site : Site} {names : List String}
    {us : Uses} (hopening : Walks opening p (p.enter site names) [])
    (h : Walks f (p.enter site names) q us) (hgrows : (p.enter site names).Grows q) :
    Walks (fun s => (f (opening s)).endScope) p p us := by
  obtain ⟨names', hscopes⟩ := hgrows.of_enter
  have hclosing := walks_endScope hscopes hgrows.functionKind hgrows.classKind hgrows.inLoop
  simpa only [List.nil_append, List.append_nil] using (hopening.comp h).comp hclosing

/-! ### Kinds of class, function and loop -/

theorem walks_setClass (kind : ClassKind) (p : Place) :
    Walks (fun s => { s with classKind := kind }) p (p.inClass kind) [] :=
  walks_quiet (fun _ hs => ⟨hs.functionKind, rfl, hs.loops, hs.scopes⟩) (fun _ => rfl)
    (fun _ h => h)

/-- The members of a class are walked in a class of its kind, and the walk goes on outside. -/
theorem Walks.restoreClass {f : State → State} {p q : Place} {kind : ClassKind} {us : Uses}
    (h : Walks f p (q.inClass kind) us) (hgrows : p.Grows q) :
    Walks (fun s => { f s with classKind := s.classKind }) p q us := by
  intro s hs
  obtain ⟨htracks, hrest⟩ := h s hs
  exact ⟨⟨htracks.functionKind,
    by rw [hgrows.classKind]; exact hs.classKind, htracks.loops, htracks.scopes⟩, hrest⟩

theorem Tracks.openLoop {s : State} {p : Place} (h : Tracks s p) : Tracks s.openLoop p.enterLoop :=
  ⟨h.functionKind, h.classKind, by simp [Place.enterLoop, State.openLoop], h.scopes⟩

/-- The body of a loop is walked with one more loop open, and the walk goes on outside of it. -/
theorem Walks.inLoop {f : State → State} {p q : Place} {us : Uses}
    (h : Walks f p.enterLoop q.enterLoop us) (hdepth : ∀ s, (f s).loopDepth = s.loopDepth)
    (hgrows : p.Grows q) : Walks (inLoop f) p q us := by
  intro s hs
  obtain ⟨htracks, hrest⟩ := h _ hs.openLoop
  refine ⟨⟨htracks.functionKind, htracks.classKind, ?_, htracks.scopes⟩, hrest⟩
  have hback : (Resolve.inLoop f s).loopDepth = s.loopDepth := by
    show (f s.openLoop).loopDepth - 1 = s.loopDepth
    rw [hdepth]
    rfl
  rw [hback, hgrows.inLoop]
  exact hs.loops

theorem walks_enterFunction (kind : FunctionKind) (decl : FunctionDecl) (p : Place) :
    Walks (enterFunction kind decl.params) p (p.enterFunction kind decl) [] := by
  have hkinds : Walks (fun s => { s with functionKind := kind, loopDepth := 0 }) p
      { p with functionKind := kind, inLoop := false } [] :=
    walks_quiet (fun _ hs => ⟨rfl, hs.classKind, by simp, hs.scopes⟩) (fun _ => rfl) (fun _ h => h)
  exact (hkinds.comp (walks_beginScope (.function decl) _)).comp (walks_declareParams decl.params _)

/-- A function body is walked in a scope of its own and left for the place where it was entered. -/
theorem Walks.function {body : State → State} {kind : FunctionKind} {decl : FunctionDecl}
    {p q : Place} {us : Uses} (h : Walks body (p.enterFunction kind decl) q us)
    (hgrows : (p.enterFunction kind decl).Grows q) :
    Walks (fun s => leaveFunction s (body (enterFunction kind decl.params s))) p p us := by
  have hinside := (Place.grows_declareAll decl.params _).trans hgrows
  obtain ⟨names, hscopes⟩ :=
    Place.Grows.of_enter (p := { p with functionKind := kind, inLoop := false }) hinside
  have hclosing : Walks endScope q { p with functionKind := kind, inLoop := false } [] :=
    walks_endScope hscopes hinside.functionKind hinside.classKind hinside.inLoop
  have hwhole := ((walks_enterFunction kind decl p).comp h).comp hclosing
  rw [List.nil_append, List.append_nil] at hwhole
  intro s hs
  obtain ⟨htracks, hrest⟩ := hwhole s hs
  exact ⟨⟨hs.functionKind, htracks.classKind, hs.loops, htracks.scopes⟩, hrest⟩

/-! ### Single uses -/

theorem walks_lookUp (p : Place) (use : Use) {id : Nat} {name : String} (isRead : Bool)
    (haccepted : Accepted p use) (hlookup : use.lookup? = some (id, name)) :
    Walks (fun s => s.lookUp id name isRead) p p [(p, use)] := by
  intro s hs
  refine ⟨hs.of_scopes rfl rfl rfl rfl rfl rfl ?_, ?_, fun h => ⟨h, ?_⟩⟩
  · show List.Forall₂ Holds (if isRead then markRead name s.scopes else s.scopes) p.scopes
    split
    · exact markRead_holds hs.scopes
    · exact hs.scopes
  · show s.bindings ++ [⟨id, name, State.distance? name s.scopes⟩] = _
    rw [distance?_eq hs.scopes, List.filterMap_cons, binding?_of_lookup? haccepted hlookup,
      List.filterMap_nil]
    rfl
  · intro u hu
    rw [List.mem_singleton.1 hu]
    exact haccepted

/-- A part of the walk that may report something and does nothing else. -/
theorem walks_report (p : Place) (found : State → Prop) [DecidablePred found] (token : Token)
    (cause : ResolveError.Cause) :
    Walks (fun s => if found s then s.error token cause else s) p p [] := by
  refine walks_quiet (fun s hs => ?_) (fun s => ?_) (fun s h => ?_)
  · split
    · exact hs.error token cause
    · exact hs
  · split <;> rfl
  · split at h
    · simp at h
    · exact h

/-- A use that is reported because its place does not accept it. -/
theorem walks_refused (p : Place) (use : Use) (token : Token) (cause : ResolveError.Cause)
    (hbinding : binding? (p, use) = none) :
    Walks (fun s => s.error token cause) p p [(p, use)] := by
  intro s hs
  refine ⟨hs.error token cause, ?_, fun h => ?_⟩
  · rw [List.filterMap_cons, hbinding]
    simp [State.error]
  · simp at h

theorem walks_resolveVariable (id : Nat) (name : Token) (p : Place) :
    Walks (resolveVariable id name) p p [(p, .read id name)] := by
  have hreport := walks_report p (·.inOwnInitializer name.lexeme = true) name .readInOwnInitializer
  exact hreport.comp (walks_lookUp p (.read id name) true trivial rfl)

theorem walks_resolveThis (id : Nat) (keyword : Token) (p : Place) :
    Walks (resolveThis id keyword) p p [(p, .this id keyword)] := by
  intro s hs
  by_cases hkind : p.classKind = .none
  · have hnone : s.classKind = .none := hs.classKind.trans hkind
    rw [resolveThis, if_pos hnone]
    exact walks_refused p (.this id keyword) keyword .thisOutsideClass (if_pos hkind) s hs
  · have hsome : s.classKind ≠ .none := fun h => hkind (hs.classKind.symm.trans h)
    rw [resolveThis, if_neg hsome]
    exact walks_lookUp p (.this id keyword) true hkind rfl s hs

theorem walks_resolveSuper (id : Nat) (keyword : Token) (p : Place) :
    Walks (resolveSuper id keyword) p p [(p, .super id keyword)] := by
  intro s hs
  have hbinding : p.classKind ≠ .subclass → binding? (p, .super id keyword) = none :=
    fun h => if_neg h
  unfold resolveSuper
  rw [hs.classKind]
  cases hkind : p.classKind with
  | none => exact walks_refused p _ keyword .superOutsideClass (hbinding (by simp [hkind])) s hs
  | plain =>
    exact walks_refused p _ keyword .superWithoutSuperclass (hbinding (by simp [hkind])) s hs
  | subclass => exact walks_lookUp p (.super id keyword) true hkind rfl s hs

theorem walks_jump (keyword : Token) (kind : Jump) (p : Place) :
    Walks (fun s => if s.loopDepth = 0 then s.error keyword (.jumpOutsideLoop kind) else s) p p
      [(p, .jump keyword kind)] := by
  intro s hs
  by_cases hloop : p.inLoop = false
  · simp only [if_pos (hs.loops.2 hloop)]
    exact walks_refused p (.jump keyword kind) keyword (.jumpOutsideLoop kind) rfl s hs
  · simp only [if_neg (fun h => hloop (hs.loops.1 h))]
    exact (walks_id p).cons_silent rfl (by simpa [Accepted] using hloop) s hs

theorem walks_checkReturn (keyword : Token) (hasValue : Bool) (p : Place) :
    Walks (checkReturn keyword hasValue) p p [(p, .returnValue keyword hasValue)] := by
  have hvalue := walks_report p (fun s => (hasValue && s.functionKind == .initializer) = true)
    keyword .valueFromInitializer
  have hplace :
      Walks (fun s => if s.functionKind = .none then s.error keyword .returnAtTopLevel else s) p p
      [(p, .returnValue keyword hasValue)] := by
    intro s hs
    by_cases hkind : p.functionKind = .none
    · simp only [if_pos (hs.functionKind.trans hkind)]
      exact walks_refused p (.returnValue keyword hasValue) keyword .returnAtTopLevel rfl s hs
    · simp only [if_neg (fun h => hkind (hs.functionKind.symm.trans h))]
      exact (walks_id p).cons_silent rfl
        (show Accepted p (.returnValue keyword hasValue) from hkind) s hs
  exact hplace.comp hvalue

theorem walks_checkSuperclass (name : Token) (superclass : Expr) (p : Place) :
    Walks (checkSuperclass name superclass) p p [] := by
  unfold checkSuperclass
  cases superclass.name? with
  | none => exact walks_id p
  | some parent =>
    exact walks_report p (fun _ => parent.lexeme = name.lexeme) parent .inheritsFromItself

/-! ### Whole trees -/

theorem Walks.of_eq {f g : State → State} {p q : Place} {us : Uses} (h : Walks f p q us)
    (heq : ∀ s, g s = f s) :
    Walks g p q us := by
  rw [funext heq]
  exact h

/-- Uses that are neither reported nor looked up may be listed in front. -/
theorem Walks.append_silent {f : State → State} {p q : Place} {us vs : Uses} (hf : Walks f p q vs)
    (hsilent : ∀ u ∈ us, binding? u = none ∧ Accepted u.1 u.2) : Walks f p q (us ++ vs) := by
  induction us with
  | nil => exact hf
  | cons u rest ih =>
      have hrest := ih (fun v hv => hsilent v (List.mem_cons_of_mem u hv))
      obtain ⟨hbinding, haccepted⟩ := hsilent u (List.mem_cons_self ..)
      exact hrest.cons_silent hbinding haccepted

mutual

theorem walks_expr : (e : Expr) → (p : Place) → Walks (expr e) p p (e.uses p)
  | .literal _, p => (walks_id p).of_eq (fun s => by rw [expr])
  | .group inner, p => (walks_expr inner p).of_eq (fun s => by rw [expr])
  | .unary _ right, p => (walks_expr right p).of_eq (fun s => by rw [expr])
  | .binary left _ right, p =>
    ((walks_expr left p).comp (walks_expr right p)).of_eq (fun s => by rw [expr])
  | .logical left _ right, p =>
    ((walks_expr left p).comp (walks_expr right p)).of_eq (fun s => by rw [expr])
  | .conditional condition thenBranch elseBranch, p =>
    (((walks_expr condition p).comp (walks_expr thenBranch p)).comp (walks_expr elseBranch p)).of_eq
      (fun s => by rw [expr])
  | .variable id name, p => (walks_resolveVariable id name p).of_eq (fun s => by rw [expr])
  | .assign id name value, p =>
    ((walks_expr value p).comp (walks_lookUp p (.write id name) false trivial rfl)).of_eq
      (fun s => by rw [expr])
  | .call callee _ arguments, p =>
    ((walks_expr callee p).comp (walks_exprs arguments p)).of_eq (fun s => by rw [expr])
  | .function decl, p => (walks_function .function decl p).of_eq (fun s => by rw [expr])
  | .get object _, p => (walks_expr object p).of_eq (fun s => by rw [expr])
  | .set object _ value, p =>
    ((walks_expr value p).comp (walks_expr object p)).of_eq (fun s => by rw [expr])
  | .this id keyword, p => (walks_resolveThis id keyword p).of_eq (fun s => by rw [expr])
  | .super id keyword _, p => (walks_resolveSuper id keyword p).of_eq (fun s => by rw [expr])

theorem walks_exprs : (es : List Expr) → (p : Place) → Walks (exprs es) p p (Expr.usesAll es p)
  | [], p => (walks_id p).of_eq (fun s => by rw [exprs])
  | first :: rest, p =>
    ((walks_expr first p).comp (walks_exprs rest p)).of_eq (fun s => by rw [exprs])

theorem walks_expr? : (e : Option Expr) → (p : Place) → Walks (expr? e) p p (Expr.uses? e p)
  | none, p => (walks_id p).of_eq (fun s => by rw [expr?])
  | some e, p => (walks_expr e p).of_eq (fun s => by rw [expr?])

theorem walks_references :
    (es : List Expr) → (p : Place) → Walks (exprs es) p p (Expr.references es p)
  | [], p => (walks_id p).of_eq (fun s => by rw [exprs])
  | first :: rest, p =>
    (((walks_expr first p).comp (walks_references rest p)).cons_silent
      (show binding? (p, .reference first) = none from rfl) trivial).of_eq
      (fun s => by rw [exprs])

theorem walks_function (kind : FunctionKind) :
    (decl : FunctionDecl) → (p : Place) → Walks (function kind decl) p p (decl.uses kind p)
  | ⟨name, params, body, isGetter⟩, p => by
    have hbody := walks_stmts body (p.enterFunction kind ⟨name, params, body, isGetter⟩)
    have hwhole := hbody.function (Stmt.grows_afterAll body _)
    refine (hwhole.append_silent fun u hu => ?_).of_eq (fun s => by rw [function])
    obtain ⟨param, -, rfl⟩ := List.mem_map.1 hu
    exact ⟨rfl, trivial⟩

theorem walks_methods (site : Site) : (decls : List FunctionDecl) → (p : Place) →
    Walks (methods decls) (p.enter site ["this"]) (p.enter site ["this"])
    (FunctionDecl.usesAll .ofInstance decls p)
  | [], p => (walks_id _).of_eq (fun s => by rw [methods])
  | decl :: rest, p =>
    ((walks_function (methodKind decl) decl
      (p.enter (.receiver .ofInstance decl) ["this"])).change_site site |>.comp
      (walks_methods site rest p)).of_eq (fun s => by rw [methods])

theorem walks_classMethods (site : Site) : (decls : List FunctionDecl) → (p : Place) →
    Walks (classMethods decls) (p.enter site ["this"]) (p.enter site ["this"])
    (FunctionDecl.usesAll .ofClass decls p)
  | [], p => (walks_id _).of_eq (fun s => by rw [classMethods])
  | decl :: rest, p =>
    ((walks_function .method decl (p.enter (.receiver .ofClass decl) ["this"])).change_site site
      |>.comp
      (walks_classMethods site rest p)).of_eq (fun s => by rw [classMethods])

theorem walks_members :
    (body : ClassBody) → (p : Place) → Walks (members body) p p (body.memberUses p)
  | ⟨traits, instanceMethods, staticMethods⟩, p => by
    -- the walk opens one scope for all members; any site may name it
    have hmembers := (walks_methods (.block []) instanceMethods p).comp
      (walks_classMethods (.block []) staticMethods p)
    exact ((walks_beginImplicit "this" (.block []) p).scoped hmembers (.refl _)).of_eq
      (fun s => by rw [members])

theorem walks_uses : (body : ClassBody) → (p : Place) → Walks (uses body) p p (body.traitUses p)
  | ⟨traits, _, _⟩, p => (walks_references traits p).of_eq (fun s => by rw [uses])

theorem walks_stmt :
    (statement : Stmt) → (p : Place) →
      Walks (stmt statement) p (statement.after p) (statement.uses p)
  | .expression value, p => (walks_expr value p).of_eq (fun s => by rw [stmt])
  | .print value, p => (walks_expr value p).of_eq (fun s => by rw [stmt])
  | .variable name initial, p => by
    have hdeclare := (walks_declare name true p).cons_silent
      (show binding? (p, .declare name) = none from rfl) trivial
    have hwhole := (hdeclare.comp (walks_expr? initial _)).comp (walks_define name _)
    rw [List.append_nil] at hwhole
    exact hwhole.of_eq (fun s => by rw [stmt])
  | .block statements, p =>
    ((walks_beginScope (.block statements) p).scoped (walks_stmts statements _)
      (Stmt.grows_afterAll statements _)).of_eq
      (fun s => by rw [stmt])
  | .ifElse condition thenBranch elseBranch, p =>
    (((walks_expr condition p).comp (walks_stmt thenBranch p)).comp
      (walks_stmt? elseBranch _)).of_eq (fun s => by rw [stmt])
  | .whileLoop condition body, p => by
    have hbody := walks_stmt body p.enterLoop
    rw [Stmt.after_enterLoop] at hbody
    exact ((walks_expr condition p).comp
      (hbody.inLoop (loopDepth_stmt body) (body.grows_after p))).of_eq (fun s => by rw [stmt])
  | .forLoop initial condition increment body, p => by
    have hinitial :=
      walks_stmt? initial (p.enter (.loop (.forLoop initial condition increment body)) [])
    have hgrows :=
      Stmt.grows_after? initial (p.enter (.loop (.forLoop initial condition increment body)) [])
    have hbody :=
      walks_stmt body (Stmt.after? initial
        (p.enter (.loop (.forLoop initial condition increment body)) [])).enterLoop
    rw [Stmt.after_enterLoop] at hbody
    have hclauses := (hinitial.comp (walks_expr? condition _)).comp (walks_expr? increment _)
    have hinside := hclauses.comp (hbody.inLoop (loopDepth_stmt body) (body.grows_after _))
    exact ((walks_beginScope _ p).scoped hinside (hgrows.trans (body.grows_after _))).of_eq
      (fun s => by rw [stmt])
  | .jump keyword kind, p => (walks_jump keyword kind p).of_eq (fun s => by rw [stmt])
  | .function ⟨none, params, body, isGetter⟩, p =>
    (walks_function .function ⟨none, params, body, isGetter⟩ p).of_eq (fun s => by rw [stmt])
  | .function ⟨some name, params, body, isGetter⟩, p => by
    have hdeclare := (walks_declareDefined name p).cons_silent
      (show binding? (p, .declare name) = none from rfl) trivial
    exact (hdeclare.comp (walks_function .function ⟨some name, params, body, isGetter⟩ _)).of_eq
      (fun s => by rw [stmt])
  | .returnValue keyword value, p =>
    ((walks_checkReturn keyword value.isSome p).comp (walks_expr? value p)).of_eq
      (fun s => by rw [stmt])
  | .classDecl name none body, p => by
    have hname := (walks_setClass .plain p).comp (walks_declareDefined name _)
    rw [Place.declare_inClass] at hname
    have hdeclare := hname.cons_silent (show binding? (p, .declare name) = none from rfl) trivial
    have hwhole := (hdeclare.comp (walks_uses body _)).comp (walks_members body _)
    exact (hwhole.restoreClass (Place.grows_declare name p)).of_eq (fun s => by rw [stmt])
  | .classDecl name (some superclass) body, p => by
    have hname := (walks_setClass .plain p).comp (walks_declareDefined name _)
    rw [Place.declare_inClass] at hname
    have hkind :=
      (hname.comp (walks_checkSuperclass name superclass _)).comp (walks_setClass .subclass _)
    have hparent := (walks_expr superclass ((p.declare name).inClass .subclass)).cons_silent
      (show binding? ((p.declare name).inClass .subclass, .reference superclass) = none
        from rfl) trivial
    have hdeclare :=
      (hkind.comp hparent).cons_silent (show binding? (p, .declare name) = none from rfl) trivial
    have hopening :=
      walks_beginImplicit "super" (.superclass (.classDecl name (some superclass) body))
      ((p.declare name).inClass .subclass)
    have hmembers := hopening.scoped (walks_members body _) (.refl _)
    have hwhole := (hdeclare.comp (walks_uses body _)).comp hmembers
    exact (hwhole.restoreClass (Place.grows_declare name p)).of_eq (fun s => by rw [stmt])
  | .traitDecl name body, p => by
    have hname := (walks_declareDefined name p).comp (walks_setClass .plain _)
    have hdeclare := hname.cons_silent (show binding? (p, .declare name) = none from rfl) trivial
    have hwhole := (hdeclare.comp (walks_uses body _)).comp (walks_members body _)
    exact (hwhole.restoreClass (Place.grows_declare name p)).of_eq (fun s => by rw [stmt])

theorem walks_stmts : (statements : List Stmt) → (p : Place) →
    Walks (stmts statements) p (Stmt.afterAll statements p) (Stmt.usesAll statements p)
  | [], p => (walks_id p).of_eq (fun s => by rw [stmts])
  | first :: rest, p =>
    ((walks_stmt first p).comp (walks_stmts rest _)).of_eq (fun s => by rw [stmts])

theorem walks_stmt? : (statement : Option Stmt) → (p : Place) →
    Walks (stmt? statement) p (Stmt.after? statement p) (Stmt.uses? statement p)
  | none, p => (walks_id p).of_eq (fun s => by rw [stmt?])
  | some statement, p => (walks_stmt statement p).of_eq (fun s => by rw [stmt?])

end

/-- Resolving records what the uses of a program say, and accepts a program only if all its uses are
accepted. -/
theorem resolve_programUses (statements : List Stmt) :
    (resolve statements).bindings = (programUses statements).filterMap binding? ∧
      ((resolve statements).errors = [] → ∀ u ∈ programUses statements, Accepted u.1 u.2) := by
  obtain ⟨-, hbindings, herrors⟩ := walks_stmts statements .top {} tracks_initial
  exact ⟨hbindings, fun h => (herrors h).2⟩

end TraitScript.Resolve
