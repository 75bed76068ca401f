import TraitScript.Proofs.Eval.Calls
import TraitScript.Proofs.Method.Declare

/-!
# Variables, classes and properties

Occurrences are looked up by distances that lead to the frames of the scopes they were counted over.
The methods of a class are made in a frame that is linked to the scopes around its members, for a
subclass one with the scope of `super`; and an occurrence of `super` finds the frames of these
scopes again, whatever the receiver is.
-/

namespace TraitScript

theorem Regime.permits_fault {R : Regime} (htext : ¬ R.fromText) {fault : Fault}
    (h : fault ≠ .jumpEscaped) : R.Permits (.fault fault) :=
  ⟨fun heq => h (Stop.fault.inj heq), fun htext' => (htext htext').elim, fun _ => nofun⟩

/-- A failed access is an error of the script as long as the chain of frames was long enough. -/
theorem Regime.permits_ofFrameError {R : Regime} {error : FrameError} (line : Nat)
    (h : R.fromText → ∀ hops distance, error ≠ .chainEnded hops distance) :
    R.Permits (.ofFrameError (some line) error) := by
  cases error with
  | chainEnded hops distance =>
    exact R.permits_fault (fun htext => h htext hops distance rfl) (by simp)
  | undefined _ | uninitialized _ => exact R.permits_error fun _ => nofun

theorem FrameStore.read_ne_chainEnded {α : Type} {store : FrameStore α} {frame : FrameId}
    {name : String} {error : FrameError} (h : store.read frame name = .error error)
    (hops distance : Nat) : error ≠ .chainEnded hops distance := by
  unfold FrameStore.read at h
  split at h <;> cases h <;> simp

theorem Place.distance?_lt {p : Place} {name : String} {distance : Nat}
    (h : p.distance? name = some distance) :
    distance < p.sites.length := by
  obtain ⟨hlt, -⟩ := List.findIdx?_eq_some_iff_getElem.1 h
  rw [Place.sites, List.length_map]
  exact hlt

namespace Eval

variable {R : Regime} {sites : List Site} {m : Machine} {self watching : Evaluators}

/-! ### Variables -/

theorem getAt_sound (hsound : R.Sound m) {frame : FrameId} {distance : Nat} {name : String}
    {v : Value} (h : m.frames.getAt frame distance name = .ok v) : v.Sound R m := by
  unfold FrameStore.getAt at h
  cases hancestor : m.frames.ancestor frame distance with
  | error error =>
      rw [hancestor] at h
      cases h
  | ok holder =>
      rw [hancestor] at h
      exact read_sound hsound h

theorem get_sound (hsound : R.Sound m) {frame : FrameId} {name : String} {v : Value}
    (h : m.frames.get frame name = .ok v) :
    v.Sound R m := by
  unfold FrameStore.get at h
  cases hlocate : m.frames.locate frame name with
  | error error =>
      rw [hlocate] at h
      cases h
  | ok holder =>
      rw [hlocate] at h
      exact read_sound hsound h

theorem get_ne_chainEnded {frame : FrameId} {name : String} {error : FrameError}
    (h : m.frames.get frame name = .error error) (hops distance : Nat) :
    error ≠ .chainEnded hops distance := by
  unfold FrameStore.get FrameStore.locate at h
  cases hholder : m.frames.holder? frame name with
  | none =>
      rw [hholder] at h
      cases h
      simp
  | some holder =>
      rw [hholder] at h
      exact FrameStore.read_ne_chainEnded h hops distance

/-- A frame that is found at a distance leaves only errors of the frame itself. -/
theorem getAt_ne_chainEnded (hlinked : m.Linked m.current sites) {distance : Nat}
    (hdistance : distance < sites.length) {name : String} {error : FrameError}
    (h : m.frames.getAt m.current distance name = .error error) (hops total : Nat) :
    error ≠ .chainEnded hops total := by
  obtain ⟨holder, hholder, -⟩ := hlinked.ancestor (List.getElem?_eq_getElem hdistance)
  unfold FrameStore.getAt at h
  rw [hholder] at h
  exact FrameStore.read_ne_chainEnded h hops total

/-- In text the distance of an occurrence stays within the scopes around its place. -/
theorem distance_lt (hsound : R.Sound m) (htext : R.fromText) {p : Place} {use : Use} {id : Nat}
    {name : String} (hlegal : R.legal p use) (hlookup : use.lookup? = some (id, name))
    {distance : Nat} (h : m.distances[id]? = some distance) : distance < p.sites.length :=
  Place.distance?_lt ((hsound.distance_eq htext hlegal hlookup).symm.trans h)

theorem holds_readVariable {p : Place} {use : Use} {id : Nat} {name : Token}
    (hlegal : R.legal p use) (hlookup : use.lookup? = some (id, name.lexeme)) :
    Holds R p.sites (readVariable id name) (readVariable id name) (fun v m' => v.Sound R m') m := by
  intro hsound hlinked
  refine ⟨rfl, ?_⟩
  unfold readVariable
  cases hdistance : m.distances[id]? with
  | some distance =>
      cases hresult : m.frames.getAt m.current distance name.lexeme with
      | ok v => simpa [hresult] using ⟨.refl m, hsound, hlinked, getAt_sound hsound hresult⟩
      | error error =>
          have hpermits : R.Permits (.ofFrameError (some name.line) error) :=
            R.permits_ofFrameError _ fun htext =>
              getAt_ne_chainEnded hlinked
                (distance_lt hsound htext hlegal hlookup hdistance) hresult
          simpa [hresult] using ⟨.refl m, hsound, hpermits⟩
  | none =>
      cases hresult : m.frames.get m.globals name.lexeme with
      | ok v => simpa [hresult] using ⟨.refl m, hsound, hlinked, get_sound hsound hresult⟩
      | error error =>
          have hpermits : R.Permits (.ofFrameError (some name.line) error) :=
            R.permits_ofFrameError _ fun _ => get_ne_chainEnded hresult
          simpa [hresult] using ⟨.refl m, hsound, hpermits⟩

/-- The frame to write in is found at the distance of the occurrence, or it is an error of the
script. -/
theorem target_ne_chainEnded (hlinked : m.Linked m.current sites) {id : Nat} {name : String}
    {error : FrameError}
    (hdistance : ∀ distance, m.distances[id]? = some distance → distance < sites.length)
    (h : target m id name = .error error) (hops total : Nat) : error ≠ .chainEnded hops total := by
  unfold target at h
  cases hfound : m.distances[id]? with
  | some distance =>
      obtain ⟨holder, hholder, -⟩ :=
        hlinked.ancestor (List.getElem?_eq_getElem (hdistance distance hfound))
      simp only [hfound, FrameStore.locateAt, hholder] at h
      change (if _ then _ else _) = _ at h
      split at h <;> cases h
      simp
  | none =>
      simp only [hfound, FrameStore.locate] at h
      split at h <;> cases h
      simp

theorem holds_writeVariable {p : Place} {id : Nat} {name : Token} {value : Value}
    (hlegal : R.legal p (.write id name)) (hvalue : value.Sound R m) :
    Holds R p.sites (writeVariable id name value) (writeVariable id name value)
      (fun _ _ => True) m := by
  intro hsound hlinked
  refine ⟨rfl, ?_⟩
  unfold writeVariable
  cases htarget : target m id name.lexeme with
  | ok frame =>
      have hext := Regime.Sound.extends_bind m frame name.lexeme (some value)
      refine ⟨hext, hsound.bind (fun v hv => ?_)
        (fun htext => .inl (R.write_ordinary htext hlegal)), hlinked.mono hext, trivial⟩
      rw [← Option.some.inj hv]
      exact hvalue
  | error error =>
      refine ⟨.refl m, hsound, R.permits_ofFrameError _ fun htext => ?_⟩
      exact target_ne_chainEnded hlinked
        (fun distance => distance_lt hsound htext hlegal rfl) htarget

/-! ### Members -/

/-- The members that a class or trait has so far are methods of their kinds. -/
def Members.Sound (R : Regime) (m : Machine) (members : Members) : Prop :=
  MethodTable.Sound R m .ofInstance members.methods ∧
    MethodTable.Sound R m .ofClass members.classMethods

theorem Members.Sound.mono {m m' : Machine} {members : Members} (hext : m.Extends m')
    (h : members.Sound R m) : members.Sound R m' :=
  ⟨h.1.mono (.refl R) hext, h.2.mono (.refl R) hext⟩

theorem Members.Sound.empty : Members.Sound R m {} := ⟨.empty _, .empty _⟩

theorem holds_merge {kind : MethodKind} {line : Option Nat} (hline : R.fromText → line ≠ none)
    (conflict : String → RuntimeError.Cause) {entries : List (String × Closure)}
    {table : MethodTable} (hentries : ∀ entry ∈ entries, entry.2.Member R m kind)
    (htable : MethodTable.Sound R m kind table) :
    Holds R sites (merge line conflict entries table) (merge line conflict entries table)
      (fun merged m' => MethodTable.Sound R m' kind merged) m := by
  induction entries generalizing table with
  | nil => exact holds_pure table fun _ => htable
  | cons entry rest ih =>
      obtain ⟨name, method⟩ := entry
      rw [merge]
      split
      · exact holds_raise? fun htext hnone => (hline htext hnone).elim
      · exact ih (fun entry hentry => hentries entry (List.mem_cons_of_mem _ hentry))
          (htable.insert name (hentries _ (List.mem_cons_self ..)))

/-- The tables of a trait are sound in whatever order they are walked. -/
theorem holds_mergeTable {kind : MethodKind} {line : Option Nat} (hline : R.fromText → line ≠ none)
    (conflict : String → RuntimeError.Cause) (used : Trait) (ofClass : Bool)
    {theirs table : MethodTable} (htheirs : MethodTable.Sound R m kind theirs)
    (htable : MethodTable.Sound R m kind table) :
    Holds R sites (mergeTable line conflict used ofClass theirs table)
      (mergeTable line conflict used ofClass theirs table)
      (fun merged m' => MethodTable.Sound R m' kind merged) m :=
  holds_merge hline conflict (htheirs.arrange _) htable

theorem holds_evaluateTrait (hself : Related R self watching) {p : Place} {expr : Expr}
    (hname : R.fromText → expr.name? ≠ none) (hallows : R.Allows (expr.uses p)) :
    Holds R p.sites (evaluateTrait self expr) (evaluateTrait watching expr)
      (fun used m' => (Value.traitValue used).Sound R m') m := by
  refine (hself.evaluate hallows).bind fun value m' _ hvalue => ?_
  cases value with
  | traitValue definition => exact holds_pure definition fun _ => hvalue
  | nil | bool _ | number _ | string _ | function _ | native _ | classValue _ | object _ =>
      dsimp only
      split
      next => exact holds_raise _ _
      next hnone => exact holds_raise? fun htext _ => (hname htext hnone).elim

theorem holds_useTraits (hself : Related R self watching) {p : Place} {exprs : List Expr}
    {members : Members} (hallows : R.Allows (Expr.references exprs p))
    (hmembers : members.Sound R m) :
    Holds R p.sites (useTraits self exprs members) (useTraits watching exprs members)
      (fun used m' => used.Sound R m') m := by
  induction exprs generalizing members m with
  | nil => exact holds_pure members fun _ => hmembers
  | cons expr rest ih =>
      simp only [Expr.references, List.cons_append, Regime.allows_cons,
        Regime.allows_append] at hallows
      have hname : R.fromText → expr.name? ≠ none := by
        intro htext
        obtain ⟨id, name, rfl⟩ := R.reference_variable htext hallows.1
        simp [Expr.name?]
      have hline : R.fromText → expr.name?.map (·.line) ≠ none :=
        fun htext hnone => hname htext (Option.map_eq_none_iff.1 hnone)
      refine (holds_evaluateTrait hself hname hallows.2.1).bind fun used m₁ hext₁ hused => ?_
      have hmembers₁ := hmembers.mono hext₁
      refine (holds_mergeTable hline _ used false hused.1 hmembers₁.1).bind
        fun methods m₂ hext₂ hmethods => ?_
      have hused₂ := MethodTable.Sound.mono (.refl R) hext₂ hused.2
      refine (holds_mergeTable hline _ used true hused₂ (hmembers₁.mono hext₂).2).bind
        fun classMethods m₃ hext₃ hclassMethods => ?_
      exact ih hallows.2.2 ⟨hmethods.mono (.refl R) hext₃, hclassMethods⟩

/-- Own methods are sound in a frame that is linked to the scopes around them. -/
theorem sound_withMethods {kind : MethodKind} {p : Place} {frame : FrameId}
    (isInitializer : String → Bool) {decls : List FunctionDecl} (nextId : Nat) {table : MethodTable}
    (hallows : R.Allows (FunctionDecl.usesAll kind decls p)) (hframe : m.Linked frame p.sites)
    (htable : MethodTable.Sound R m kind table) :
    MethodTable.Sound R m kind (withMethods frame isInitializer decls nextId table) := by
  induction decls generalizing nextId table with
  | nil => exact htable
  | cons decl rest ih =>
      rw [FunctionDecl.usesAll, Regime.allows_append] at hallows
      have hmember : Closure.Member R m kind ⟨nextId, decl, frame, isInitializer decl.key⟩ :=
        ⟨p, hallows.1, hframe⟩
      exact ih (nextId + 1) hallows.2 (htable.insert _ hmember)

theorem holds_addNewMethods {kind : MethodKind} {p : Place} {frame : FrameId} (owner : Token)
    (conflict : String → RuntimeError.Cause) (isInitializer : String → Bool)
    {decls : List FunctionDecl} {table : MethodTable}
    (hallows : R.Allows (FunctionDecl.usesAll kind decls p)) (hframe : m.Linked frame p.sites)
    (htable : MethodTable.Sound R m kind table) :
    Holds R sites (addNewMethods owner conflict frame isInitializer decls table)
      (addNewMethods owner conflict frame isInitializer decls table)
      (fun methods m' => MethodTable.Sound R m' kind methods) m := by
  induction decls generalizing table m with
  | nil => exact holds_pure table fun _ => htable
  | cons decl rest ih =>
      rw [FunctionDecl.usesAll, Regime.allows_append] at hallows
      rw [addNewMethods]
      split
      · exact holds_raise _ _
      · refine (holds_makeClosure decl frame _).bind fun method m' hext hmethod => ?_
        obtain ⟨hdecl, hin, -⟩ := hmethod
        have hmember : method.Member R m' kind :=
          ⟨p, by rw [hdecl]; exact hallows.1, by rw [hin]; exact hframe.mono hext⟩
        exact ih hallows.2 (hframe.mono hext) ((htable.mono (.refl R) hext).insert _ hmember)

/-! ### Declarations -/

theorem holds_declareTrait (hself : Related R self watching) {p : Place} {name : Token}
    {body : ClassBody} (hallows : R.Allows ((Stmt.traitDecl name body).uses p)) :
    Holds R p.sites (declareTrait self name body) (declareTrait watching name body)
      (fun flow _ => flow = .normal) m := by
  obtain ⟨traits, methods, classMethods⟩ := body
  simp only [Stmt.uses, ClassBody.traitUses, ClassBody.memberUses, List.cons_append,
    Regime.allows_cons, Regime.allows_append] at hallows
  obtain ⟨hname, htraits, hmethods, hclassMethods⟩ := hallows
  have hsites : ((p.declare name).inClass .plain).sites = p.sites := by simp
  have huse := holds_useTraits (m := m) hself htraits Members.Sound.empty
  rw [hsites] at huse
  refine huse.bind fun used m₁ hext₁ hused =>
    holds_currentFrame.bind fun frame m₂ hext₂ hframe => ?_
  rw [← hsites] at hframe
  have hused₂ := hused.mono hext₂
  refine (holds_addNewMethods name _ _ hclassMethods hframe hused₂.2).bind
    fun table₃ m₃ hext₃ htable₃ => ?_
  refine (holds_addNewMethods name _ _ hmethods (hframe.mono hext₃) (hused₂.mono hext₃).1).bind
    fun table₄ m₄ hext₄ htable₄ => ?_
  refine holds_freshId.bind fun id m₅ hext₅ _ => ?_
  refine (holds_define ?_ fun htext => R.declare_ordinary htext hname).bind fun _ _ _ _ => ?_
  · exact ⟨htable₄.mono (.refl R) hext₅, htable₃.mono (.refl R) (hext₄.trans hext₅)⟩
  · exact (holds_record _).bind fun _ _ _ _ => holds_pure Flow.normal fun _ => rfl

theorem holds_evaluateSuperclass (hself : Related R self watching) {p : Place} (name : Token)
    {parent : Option Expr} (hallows : R.Allows (Expr.uses? parent p)) :
    Holds R p.sites (evaluateSuperclass self name parent) (evaluateSuperclass watching name parent)
      (fun found m' => found.isSome = parent.isSome ∧ ∀ definition, found = some definition →
          definition.Sound R m') m := by
  cases parent with
  | none => exact holds_pure none fun _ => ⟨rfl, by simp⟩
  | some expr =>
      rw [Expr.uses?] at hallows
      refine (hself.evaluate hallows).bind fun value m' _ hvalue => ?_
      cases value with
      | classValue definition =>
          refine holds_pure (some definition) fun _ => ⟨rfl, fun other hother => ?_⟩
          rw [← Option.some.inj hother]
          exact hvalue
      | nil | bool _ | number _ | string _ | function _ | native _ | object _ | traitValue _ =>
        exact holds_raise _ _

/-- The frame of the scope of `super`. -/
theorem sound_addSuper (declaration : Stmt) {definition : Class} (hsound : R.Sound m)
    (hlinked : m.Linked m.current sites) (hdefinition : definition.Sound R m) :
    R.Sound (m.addSuper declaration (some definition)) ∧
      m.Extends (m.addSuper declaration (some definition)) ∧
      (m.addSuper declaration (some definition)).Linked m.frames.size
        (.superclass declaration :: sites) := by
  refine ⟨?_, m.extends_addFrame _ _, hlinked.addFrame hsound.size rfl _⟩
  refine hsound.addFrame (fun {name v} hv => ?_) (fun _ decl v heq => ?_)
    (fun _ other found heq => ?_)
  · rw [Table.find?_insert] at hv
    split at hv
    · rw [← Option.some.inj (Option.some.inj hv)]
      exact hdefinition
    · cases hv
  · cases heq
  · cases heq
    exact Table.find?_insert ∅ "super" "super" _

/-- The place around the members of a class. -/
def memberPlace (name : Token) (parent : Option Expr) (body : ClassBody) (p : Place) : Place :=
  match parent with
  | none => (p.declare name).inClass .plain
  | some parent =>
    ((p.declare name).inClass .subclass).enter
      (.superclass (.classDecl name (some parent) body)) ["super"]

/-- What a class refers to is looked up in the scope of its name, and its members stand in the
scopes of `memberPlace`. -/
theorem allows_classDecl {name : Token} {parent : Option Expr} {body : ClassBody} {p : Place}
    (h : R.Allows ((Stmt.classDecl name parent body).uses p)) :
    R.legal p (.declare name) ∧ ∃ q : Place, q.sites = p.sites ∧ R.Allows (Expr.uses? parent q) ∧
      R.Allows (body.traitUses q) ∧
      R.Allows (body.memberUses (memberPlace name parent body p)) := by
  cases parent with
  | none =>
      simp only [Stmt.uses, List.cons_append, Regime.allows_cons, Regime.allows_append] at h
      exact ⟨h.1, (p.declare name).inClass .plain, by simp, by simp [Expr.uses?], h.2.1, h.2.2⟩
  | some parent =>
      simp only [Stmt.uses, List.cons_append, Regime.allows_cons, Regime.allows_append] at h
      exact ⟨h.1, (p.declare name).inClass .subclass,
        by simp, by simpa [Expr.uses?] using h.2.2.1.1, h.2.2.1.2, h.2.2.2⟩

/-- The members of a class are made in a frame that is linked to the scopes around them. -/
theorem linked_memberFrame (name : Token) {parent : Option Expr} (body : ClassBody) {p : Place}
    {superclass : Option Class} (hsound : R.Sound m) (hlinked : m.Linked m.current p.sites)
    (hparent : superclass.isSome = parent.isSome)
    (hsuperclass : ∀ definition, superclass = some definition → definition.Sound R m) :
    let inside := m.addSuper (.classDecl name parent body) superclass
    R.Sound inside ∧ m.Extends inside ∧
      inside.Linked (m.memberFrame superclass) (memberPlace name parent body p).sites := by
  cases superclass with
  | none =>
      obtain rfl : parent = none := by simpa using hparent
      refine ⟨hsound, .refl m, ?_⟩
      show m.Linked m.current _
      simpa [memberPlace] using hlinked
  | some definition =>
      obtain ⟨expr, rfl⟩ := Option.isSome_iff_exists.1 hparent.symm
      obtain ⟨hinside, hext, hframe⟩ := sound_addSuper (.classDecl name (some expr) body) hsound
        hlinked (hsuperclass definition rfl)
      exact ⟨hinside, hext, by simpa [memberPlace, Machine.memberFrame] using hframe⟩

/-- The class is made of sound methods, and its frame and its name are all that is added. -/
theorem holds_finishClass {p : Place} {name : Token} {parent : Option Expr} {body : ClassBody}
    {superclass : Option Class} {used : Members} (hname : R.legal p (.declare name))
    (hmembers : R.Allows (body.memberUses (memberPlace name parent body p)))
    (hparent : superclass.isSome = parent.isSome)
    (hsuperclass : ∀ definition, superclass = some definition → definition.Sound R m)
    (hused : used.Sound R m) :
    Holds R p.sites (finishClass name parent body superclass used)
      (finishClass name parent body superclass used) (fun flow _ => flow = .normal) m := by
  refine holds_of_ok .normal _ (finishClass_eq name parent body superclass used m)
    fun hsound hlinked => ?_
  obtain ⟨hinside, hext, hframe⟩ :=
    linked_memberFrame name body hsound hlinked hparent hsuperclass
  have hused' := hused.mono hext
  have hclass : (m.newClass name body superclass used).Sound R
      (m.addSuper (.classDecl name parent body) superclass) := by
    obtain ⟨traits, methods, classMethods⟩ := body
    simp only [ClassBody.memberUses, Regime.allows_append] at hmembers
    exact .intro (sound_withMethods _ _ hmembers.1 hframe hused'.1)
      (sound_withMethods _ _ hmembers.2 hframe hused'.2)
      fun definition h => (hsuperclass definition h).mono (.refl R) hext
  let newClass := Value.classValue (m.newClass name body superclass used)
  let inside := m.addSuper (.classDecl name parent body) superclass
  have hvalue : ∀ v, some newClass = some v → v.Sound R inside := fun _ hv =>
    Option.some.inj hv ▸ hclass
  have hordinary : R.fromText → Ordinary name.lexeme ∨ m.current = inside.globals := fun htext =>
    .inl (R.declare_ordinary htext hname)
  have hbound := hinside.bind hvalue hordinary
  have hextAll : m.Extends (m.addClass name parent body superclass used) := by
    have hstep := Regime.Sound.extends_bind inside m.current name.lexeme (some newClass)
    exact hext.trans ⟨rfl, id, hstep.enclosing, id⟩
  refine ⟨hextAll, hbound.newHolder.congr rfl rfl rfl ?_ rfl rfl, ?_, rfl⟩
  · show m.fields.push ∅ = inside.fields.push ∅
    rw [addSuper_fields]
  · have hcurrent : (m.addClass name parent body superclass used).current = m.current :=
      addSuper_current m _ superclass
    rw [hcurrent]
    exact hlinked.mono hextAll

theorem holds_declareClass (hself : Related R self watching) {p : Place} {name : Token}
    {parent : Option Expr} {body : ClassBody}
    (hallows : R.Allows ((Stmt.classDecl name parent body).uses p)) :
    Holds R p.sites (declareClass self name parent body) (declareClass watching name parent body)
      (fun flow _ => flow = .normal) m := by
  obtain ⟨hname, q, hsites, hparent, htraits, hmembers⟩ := allows_classDecl hallows
  rw [declareClass_eq, declareClass_eq]
  have hevaluated := holds_evaluateSuperclass (m := m) hself name hparent
  rw [hsites] at hevaluated
  refine hevaluated.bind fun superclass m₁ hext₁ hsuperclass => ?_
  have hreferences : R.Allows (Expr.references body.traits q) := by
    obtain ⟨traits, _, _⟩ := body
    exact htraits
  have huse := holds_useTraits (m := m₁) hself hreferences Members.Sound.empty
  rw [hsites] at huse
  refine huse.bind fun used m₂ hext₂ hused => ?_
  exact holds_finishClass hname hmembers hsuperclass.1
    (fun definition h => (hsuperclass.2 definition h).mono (.refl R) hext₂) hused

/-! ### Properties -/

theorem holds_bindMethod (hself : Related R self watching) {method : Closure} {receiver : Value}
    (hmethod : method.Member R m receiver.receiverKind) (hreceiver : receiver.Sound R m) :
    Holds R sites (bindMethod self method receiver) (bindMethod watching method receiver)
      (fun v m' => v.Sound R m') m := by
  refine (holds_bindReceiver hmethod hreceiver rfl).bind fun bound m' _ hbound => ?_
  split
  · exact holds_callClosure hself hbound (by simp)
  · exact holds_pure _ fun _ => hbound

theorem holds_getProperty (hself : Related R self watching) {object : Value} (name : Token)
    (hobject : object.Sound R m) :
    Holds R sites (getProperty self object name) (getProperty watching object name)
      (fun v m' => v.Sound R m') m := by
  unfold getProperty
  cases object.holder? with
  | none => exact holds_raise _ _
  | some holder =>
      refine (holds_field? holder name.lexeme).bind fun found m' hext hfound => ?_
      cases found with
      | some value => exact holds_pure value fun _ => hfound value rfl
      | none =>
          have hobject' := hobject.mono (.refl R) hext
          cases hmethod : object.findMethod name.lexeme with
          | some method => exact holds_bindMethod hself (hobject'.findMethod hmethod) hobject'
          | none => exact holds_raise _ _

/-! ### The superclass -/

/-- The frames that an occurrence of `super` refers to, with what they bind. -/
structure SuperFrames (m : Machine) (distance : Nat) (declaration : Stmt) (kind : MethodKind)
    (decl : FunctionDecl) (definition : Class) (receiver : Value) : Prop where
  superclass_frame : ∃ frame, m.frames.ancestor m.current distance = .ok frame ∧
    m.origins[frame]? = some (.superclass declaration definition) ∧
    m.frames.read frame "super" = .ok (.classValue definition)
  receiver_frame : ∃ frame, m.frames.ancestor m.current (distance - 1) = .ok frame ∧
    m.origins[frame]? = some (.receiver decl receiver) ∧ m.frames.read frame "this" = .ok receiver
  receiver_kind : receiver.receiverKind = kind

/-- Where `super` stands, the frames of its scope and of the scope of `this` are there and bind what
they were made with. -/
theorem superFrames_of_superAt (hsound : R.Sound m) (htext : R.fromText) {p : Place}
    (hlinked : m.Linked m.current p.sites) {distance : Nat} {declaration : Stmt} {kind : MethodKind}
    {decl : FunctionDecl} (h : p.SuperAt distance declaration kind decl) :
    ∃ definition receiver, SuperFrames m distance declaration kind decl definition receiver := by
  obtain ⟨frame, hframe, hsite⟩ := hlinked.ancestor h.superclass
  obtain ⟨origin, horigin, hsite⟩ := Option.bind_eq_some_iff.1 hsite
  obtain ⟨inner, hinner, hsite'⟩ := hlinked.ancestor h.receiver
  obtain ⟨origin', horigin', hsite'⟩ := Option.bind_eq_some_iff.1 hsite'
  cases origin with
  | superclass declaration' definition =>
      cases hsite
      cases origin' with
      | receiver decl' receiver =>
          cases hsite'
          refine ⟨definition, receiver, ⟨frame, hframe, horigin, ?_⟩,
            ⟨inner, hinner, horigin', ?_⟩, rfl⟩
          · exact read_of_find? (hsound.superclasses htext horigin)
          · exact read_of_find? (hsound.receivers htext horigin')
      | globals | block _ | loop _ | call _ | superclass _ _ => cases hsite'
  | globals | block _ | loop _ | call _ | receiver _ _ => cases hsite

/-- A method of the superclass, for methods of instances or for class methods. -/
def superMember (definition : Class) (name : String) : MethodKind → Option Closure
  | .ofInstance => definition.findMethod name
  | .ofClass => definition.findClassMethod name

theorem superMethod_eq (definition : Class) (receiver : Value) (name : String) :
    superMethod definition receiver name = superMember definition name receiver.receiverKind := by
  cases receiver <;> rfl

/-- What `super` yields once the superclass and the receiver are known. -/
def superValue (self : Evaluators) (definition : Class) (receiver : Value) (kind : MethodKind)
    (method : Token) : Eval Value :=
  match superMember definition method.lexeme kind with
  | some found => bindMethod self found receiver
  | none => raiseAt method (.undefinedProperty method.lexeme)

/-- The method that `super` finds, and the receiver that it is bound to. -/
def superTarget (id : Nat) (keyword method : Token) : Eval (Closure × Value) := do
  match ← distance? id with
  | none => fault .superNotResolved
  | some distance =>
    let superclass ← readSuperclass distance
    let receiver ← readReceiver distance keyword
    match superMethod superclass receiver method.lexeme with
    | some found => pure (found, receiver)
    | none => raiseAt method (.undefinedProperty method.lexeme)

theorem getSuper_eq_superTarget (self : Evaluators) (id : Nat) (keyword method : Token) :
    getSuper self id keyword method =
      (do let target ← superTarget id keyword method; bindMethod self target.1 target.2) := by
  unfold getSuper superTarget
  rw [bind_assoc]
  congr 1
  funext found
  cases found with
  | none => rfl
  | some distance =>
      simp only [bind_assoc]
      congr 1
      funext superclass
      congr 1
      funext receiver
      cases superMethod superclass receiver method.lexeme <;> rfl

section Reads

variable {distance : Nat} {declaration : Stmt} {kind : MethodKind} {decl : FunctionDecl}
  {definition : Class} {receiver : Value}

theorem readSuperclass_eq (h : SuperFrames m distance declaration kind decl definition receiver) :
    readSuperclass distance m = .ok definition m := by
  obtain ⟨frame, hframe, -, hsuper⟩ := h.superclass_frame
  have hsuperclass : m.frames.getAt m.current distance "super" = .ok (.classValue definition) := by
    rw [FrameStore.getAt, hframe]
    exact hsuper
  simp only [readSuperclass, readAt, currentFrame, Bind.bind, EStateM.bind, hsuperclass,
    Pure.pure, EStateM.pure]

theorem readReceiver_eq (hpos : 2 ≤ distance)
    (h : SuperFrames m distance declaration kind decl definition receiver) (keyword : Token) :
    readReceiver distance keyword m = .ok receiver m := by
  obtain ⟨inner, hinner, -, hthis⟩ := h.receiver_frame
  have hreceiver : receiverDistance distance = distance - 1 := by
    obtain ⟨n, rfl⟩ : ∃ n, distance = n + 1 := ⟨distance - 1, by omega⟩
    rfl
  have hreceived : m.frames.getAt m.current (receiverDistance distance) "this" = .ok receiver := by
    rw [FrameStore.getAt, hreceiver, hinner]
    exact hthis
  simp only [readReceiver, readAt, currentFrame, Bind.bind, EStateM.bind, hreceived,
    Pure.pure, EStateM.pure]

/-- Reading `super` goes to the frames of its scopes. -/
theorem getSuper_eq {id : Nat} (hdistance : m.distances[id]? = some distance) (hpos : 2 ≤ distance)
    (h : SuperFrames m distance declaration kind decl definition receiver) (self : Evaluators)
    (keyword method : Token) :
    getSuper self id keyword method m = superValue self definition receiver kind method m := by
  simp only [getSuper, distance?, Bind.bind, EStateM.bind, hdistance, readSuperclass_eq h,
    readReceiver_eq hpos h, superMethod_eq,
    h.receiver_kind]
  rfl

/-- The method of the superclass and the receiver, or an error at the method. -/
theorem superTarget_eq {id : Nat} (hdistance : m.distances[id]? = some distance)
    (hpos : 2 ≤ distance) (h : SuperFrames m distance declaration kind decl definition receiver)
    (keyword method : Token) :
    superTarget id keyword method m =
      (superMember definition method.lexeme receiver.receiverKind).elim
      (raiseAt method (.undefinedProperty method.lexeme) m)
      (fun found => .ok (found, receiver) m) := by
  simp only [superTarget, distance?, Bind.bind, EStateM.bind, hdistance, readSuperclass_eq h,
    readReceiver_eq hpos h, superMethod_eq]
  cases superMember definition method.lexeme receiver.receiverKind <;> rfl

end Reads

theorem holds_readAt (frame : FrameId) (distance : Nat) (name : String) :
    Holds R sites (readAt frame distance name) (readAt frame distance name)
      (fun found m' => ∀ v, found = .ok v → v.Sound R m') m :=
  holds_of_ok _ m rfl fun hsound hlinked =>
    ⟨.refl m, hsound, hlinked, fun _ hv => getAt_sound hsound hv⟩

/-- In a tree put together by hand the frames of `super` and `this` may be missing; that is a fault,
but no jump. -/
theorem holds_readSuperclass (htext : ¬ R.fromText) (distance : Nat) :
    Holds R sites (readSuperclass distance) (readSuperclass distance)
      (fun definition m' => definition.Sound R m') m := by
  refine holds_currentFrame.bind fun frame m₁ _ _ =>
    (holds_readAt frame distance "super").bind fun found m₂ _ hfound => ?_
  split
  next definition => exact holds_pure definition fun _ => hfound _ rfl
  next => exact holds_throw (R.permits_fault htext (by simp))
  next => exact holds_throw (R.permits_fault htext (by simp))

theorem holds_readReceiver (htext : ¬ R.fromText) (distance : Nat) (keyword : Token) :
    Holds R sites (readReceiver distance keyword) (readReceiver distance keyword)
      (fun v m' => v.Sound R m') m := by
  refine holds_currentFrame.bind fun frame m₁ _ _ => ?_
  refine (holds_readAt frame (receiverDistance distance) "this").bind fun found m₂ _ hfound => ?_
  cases found with
  | ok receiver => exact holds_pure receiver fun _ => hfound _ rfl
  | error error => exact holds_throw (R.permits_ofFrameError _ fun h => (htext h).elim)

/-- What `super` finds is a method for receivers of the kind of the one that it is bound to. -/
theorem holds_superTarget {p : Place} {id : Nat} {keyword : Token} (method : Token)
    (hlegal : R.legal p (.super id keyword)) :
    Holds R p.sites (superTarget id keyword method) (superTarget id keyword method)
      (fun target m' => target.1.Member R m' target.2.receiverKind ∧ target.2.Sound R m') m := by
  have hmember : ∀ {m : Machine} {definition : Class} {receiver : Value} {found : Closure},
      definition.Sound R m →
      superMember definition method.lexeme receiver.receiverKind = some found →
      found.Member R m receiver.receiverKind := by
    intro m definition receiver found hdefinition hfound
    cases hkind : receiver.receiverKind with
    | ofInstance => exact hdefinition.findMethod (by rw [hkind] at hfound; exact hfound)
    | ofClass => exact hdefinition.findClassMethod (by rw [hkind] at hfound; exact hfound)
  intro hsound hlinked
  by_cases htext : R.fromText
  · obtain ⟨distance, declaration, kind, decl, hat⟩ := R.super_inMember htext hlegal
    obtain ⟨definition, receiver, hframes⟩ := superFrames_of_superAt hsound htext hlinked hat
    have hdistance : m.distances[id]? = some distance := by
      rw [hsound.distance_eq htext hlegal rfl, R.super_keyword htext hlegal]
      exact hat.distance_eq
    obtain ⟨frame, -, -, hsuper⟩ := hframes.superclass_frame
    obtain ⟨inner, -, -, hthis⟩ := hframes.receiver_frame
    refine ⟨rfl, ?_⟩
    rw [superTarget_eq hdistance hat.two_le hframes]
    cases hfound : superMember definition method.lexeme receiver.receiverKind with
    | none => exact ((holds_raise _ _ : Holds R p.sites _ _ _ m) hsound hlinked).2
    | some found =>
      exact ⟨.refl m, hsound, hlinked, hmember (read_sound hsound hsuper) hfound,
        read_sound hsound hthis⟩
  · have hread : Holds R p.sites (distance? id) (distance? id) (fun _ _ => True) m :=
      holds_quiet _ m rfl rfl rfl rfl rfl rfl rfl rfl fun _ => trivial
    refine (hread.bind fun found m₁ _ _ => ?_) hsound hlinked
    cases found with
    | none => exact holds_throw (R.permits_fault htext (by simp))
    | some distance =>
        refine (holds_readSuperclass htext distance).bind fun definition m₂ _ hdefinition => ?_
        refine (holds_readReceiver htext distance keyword).bind
          fun receiver m₃ hext₃ hreceiver => ?_
        rw [superMethod_eq]
        split
        next found hfound =>
          exact holds_pure (found, receiver) fun _ =>
            ⟨hmember (hdefinition.mono (.refl R) hext₃) hfound, hreceiver⟩
        next => exact holds_raise _ _

theorem holds_getSuper (hself : Related R self watching) {p : Place} {id : Nat} {keyword : Token}
    (method : Token) (hlegal : R.legal p (.super id keyword)) :
    Holds R p.sites (getSuper self id keyword method) (getSuper watching id keyword method)
      (fun v m' => v.Sound R m') m := by
  rw [getSuper_eq_superTarget, getSuper_eq_superTarget]
  exact (holds_superTarget method hlegal).bind fun target m' _ htarget =>
    holds_bindMethod hself htarget.1 htarget.2

end Eval
end TraitScript
