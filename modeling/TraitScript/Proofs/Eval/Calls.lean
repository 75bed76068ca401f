import TraitScript.Proofs.Eval.Judgement

/-!
# Sequences, loops and calls

The parts of a step that re-enter the evaluators, under the assumption that these evaluators are
related to their watched versions. A statement may end with a jump only where a loop is around it,
and with a return only inside a function; the body of a function is entered with no loop around it,
so no jump leaves it.
-/

namespace TraitScript

/-- Leaving a loop or its current round. -/
def Flow.IsJump : Flow → Prop
  | .breaking | .continuing => True
  | .normal | .returning _ => False

/-- How a statement may end at a place. -/
def Flow.Sound (R : Regime) (m : Machine) (p : Place) : Flow → Prop
  | .normal => True
  | .returning value => p.functionKind ≠ .none ∧ value.Sound R m
  | .breaking | .continuing => p.inLoop = true

def Stmt.IsLoop : Stmt → Prop
  | .whileLoop .. | .forLoop .. => True
  | _ => False

theorem Flow.Sound.mono {R : Regime} {m m' : Machine} {p : Place} {flow : Flow}
    (hext : m.Extends m') (h : flow.Sound R m p) :
    flow.Sound R m' p := by
  cases flow with
  | returning value => exact ⟨h.1, h.2.mono (.refl R) hext⟩
  | normal | breaking | continuing => exact h

/-- The names of the innermost scope make no difference to how a statement may end. -/
theorem Flow.Sound.of_grows {R : Regime} {m : Machine} {p q : Place} {flow : Flow}
    (hgrows : p.Grows q) (h : flow.Sound R m q) :
    flow.Sound R m p := by
  cases flow with
  | normal => exact h
  | returning value => exact ⟨hgrows.functionKind ▸ h.1, h.2⟩
  | breaking | continuing => exact hgrows.inLoop.symm.trans h

/-- The parts of a function that the rules of scoping speak about. -/
theorem FunctionDecl.uses_eq (decl : FunctionDecl) (kind : Resolve.FunctionKind) (p : Place) :
    decl.uses kind p =
      decl.params.map (fun param => (p.enterFunction kind decl, Use.declare param)) ++
      Stmt.usesAll decl.body (p.enterFunction kind decl) := by
  cases decl
  rw [FunctionDecl.uses]

namespace Eval

/-- Evaluators and their watched versions agree and end well wherever the regime allows what they
are given. -/
structure Related (R : Regime) (plain watching : Evaluators) : Prop where
  evaluate : ∀ {p : Place} {expr : Expr} {m : Machine}, R.Allows (expr.uses p) →
    Holds R p.sites (plain.evaluate expr) (watching.evaluate expr) (fun v m' => v.Sound R m') m
  execute : ∀ {p : Place} {stmt : Stmt} {m : Machine}, R.Allows (stmt.uses p) →
    Holds R p.sites (plain.execute stmt) (watching.execute stmt)
      (fun flow m' => flow.Sound R m' p ∧ (stmt.IsLoop → ¬ flow.IsJump)) m
  executeBlock :
    ∀ {sites : List Site} {p : Place} {statements : List Stmt} {frame : FrameId} {m : Machine},
    R.Allows (Stmt.usesAll statements p) → p.IsEntry → m.Linked frame p.sites →
    Holds R sites (plain.executeBlock statements frame) (watching.executeBlock statements frame)
    (fun flow m' => flow.Sound R m' p) m
  invoke :
    ∀ {sites : List Site} {callee : Value} {line : Nat} {arguments : List Value} {m : Machine},
    callee.Sound R m → (∀ v ∈ arguments, v.Sound R m) →
    Holds R sites (plain.invoke callee line arguments) (watching.invoke callee line arguments)
    (fun v m' => v.Sound R m') m

variable {R : Regime} {sites : List Site} {m : Machine} {self watching : Evaluators}

/-! ### Sequences and loops -/

theorem holds_executeAll {execute execute' : Stmt → Eval Flow}
    (hexecute : ∀ {p : Place} {stmt : Stmt} {m : Machine}, R.Allows (stmt.uses p) →
      Holds R p.sites (execute stmt) (execute' stmt)
      (fun flow m' => flow.Sound R m' p ∧ (stmt.IsLoop → ¬ flow.IsJump)) m)
    {statements : List Stmt} {p : Place} (hallows : R.Allows (Stmt.usesAll statements p)) :
    Holds R p.sites (executeAll execute statements) (executeAll execute' statements)
      (fun flow m' => flow.Sound R m' p) m := by
  induction statements generalizing p m with
  | nil => exact holds_pure Flow.normal fun _ => trivial
  | cons stmt rest ih =>
      rw [Stmt.usesAll, Regime.allows_append] at hallows
      refine (hexecute hallows.1).bind fun flow m' _ hflow => ?_
      cases flow with
      | normal =>
          have hgrows := stmt.grows_after p
          have hrest := ih (m := m') hallows.2
          rw [hgrows.sites] at hrest
          exact hrest.mono fun flow _ _ _ h => h.of_grows hgrows
      | returning _ | breaking | continuing => exact holds_pure _ fun _ => hflow.1

/-- Rounds of a loop: whatever ends its body, a jump does not leave the loop. -/
theorem holds_whileLoop {p : Place} {condition condition' : Eval Value} {body body' : Eval Flow}
    (hcondition : ∀ m, Holds R p.sites condition condition' (fun v m' => v.Sound R m') m)
    (hbody : ∀ m, Holds R p.sites body body' (fun flow m' => flow.Sound R m' p.enterLoop) m)
    (rounds : Nat) :
    Holds R p.sites (whileLoop condition body rounds) (whileLoop condition' body' rounds)
      (fun flow m' => flow.Sound R m' p ∧ ¬ flow.IsJump) m := by
  induction rounds generalizing m with
  | zero => exact holds_outOfFuel
  | succ rounds ih =>
      refine (hcondition m).bind fun v m' _ _ => ?_
      split
      · refine (hbody m').bind fun flow m'' _ hflow => ?_
        cases flow with
        | breaking => exact holds_pure Flow.normal fun _ => ⟨trivial, id⟩
        | returning value => exact holds_pure _ fun _ => ⟨hflow, id⟩
        | normal | continuing => exact ih
      · exact holds_pure Flow.normal fun _ => ⟨trivial, id⟩

theorem holds_holds {condition condition' : Option (Eval Value)}
    (hcondition : ∀ m, Option.Rel (fun x y => Holds R sites x y (fun v m' => v.Sound R m') m)
      condition condition') :
    Holds R sites (holds condition) (holds condition') (fun _ _ => True) m := by
  cases hcondition m with
  | none => exact holds_pure true fun _ => trivial
  | some h => exact h.bind fun v m' _ _ => holds_pure _ fun _ => trivial

theorem holds_perhaps {part part' : Option (Eval Value)}
    (hpart : ∀ m, Option.Rel
      (fun x y => Holds R sites x y (fun v m' => v.Sound R m') m) part part') :
    Holds R sites (perhaps part) (perhaps part') (fun _ _ => True) m := by
  cases hpart m with
  | none => exact holds_pure () fun _ => trivial
  | some h => exact h.bind fun v m' _ _ => holds_pure () fun _ => trivial

/-- The rounds of a `for`, each in a copy of the frame before; only the current frame changes. -/
theorem holds_forLoop {p : Place} {site : Site} {outer : List Site}
    (hsites : p.sites = site :: outer)
    {condition condition' increment increment' : Option (Eval Value)} {body body' : Eval Flow}
    (hcondition : ∀ m, Option.Rel (fun x y => Holds R p.sites x y (fun v m' => v.Sound R m') m)
      condition condition')
    (hincrement : ∀ m, Option.Rel (fun x y => Holds R p.sites x y (fun v m' => v.Sound R m') m)
      increment increment')
    (hbody : ∀ m, Holds R p.sites body body' (fun flow m' => flow.Sound R m' p.enterLoop) m)
    (rounds : Nat) :
    Holds R p.sites (forLoop condition increment body rounds)
      (forLoop condition' increment' body' rounds)
      (fun flow m' => flow.Sound R m' p ∧ ¬ flow.IsJump) m := by
  induction rounds generalizing m with
  | zero => exact holds_outOfFuel
  | succ rounds ih =>
      have hnext : ∀ m, Holds R p.sites
          (do nextIteration; perhaps increment; forLoop condition increment body rounds)
          (do nextIteration; perhaps increment'; forLoop condition' increment' body' rounds)
          (fun flow m' => flow.Sound R m' p ∧ ¬ flow.IsJump) m := by
        intro m
        have hstep : Holds R p.sites nextIteration nextIteration (fun _ _ => True) m := by
          rw [hsites]
          exact holds_nextIteration
        exact hstep.bind fun _ _ _ _ => (holds_perhaps hincrement).bind fun _ _ _ _ => ih
      refine (holds_holds hcondition).bind fun truth m' _ _ => ?_
      split
      · refine (hbody m').bind fun flow m'' _ hflow => ?_
        cases flow with
        | breaking => exact holds_pure Flow.normal fun _ => ⟨trivial, id⟩
        | returning value => exact holds_pure _ fun _ => ⟨hflow, id⟩
        | normal | continuing => exact hnext m''
      · exact holds_pure Flow.normal fun _ => ⟨trivial, id⟩

/-! ### Functions -/

/-- A function made in a frame that is linked to the scopes of its place. -/
theorem holds_makeClosure (decl : FunctionDecl) (frame : FrameId) (isInitializer : Bool) :
    Holds R sites (makeClosure decl frame isInitializer) (makeClosure decl frame isInitializer)
      (fun closure _ => closure.decl = decl ∧ closure.frame = frame ∧
          closure.isInitializer = isInitializer) m :=
  holds_freshId.bind fun _ _ _ _ => holds_pure _ fun _ => ⟨rfl, rfl, rfl⟩

/-- A method bound to a receiver of the right kind can be called: its frame is that of the scope of
`this`. -/
theorem holds_bindReceiver {kind : MethodKind} {closure : Closure} {receiver : Value}
    (hmember : closure.Member R m kind) (hreceiver : receiver.Sound R m)
    (hkind : receiver.receiverKind = kind) :
    Holds R sites (bindReceiver closure receiver) (bindReceiver closure receiver)
      (fun bound m' => bound.Bound R m') m := by
  obtain ⟨p, hallows, hlinked⟩ := hmember
  let frame : Frame Value :=
    ⟨(∅ : Table (Option Value)).insert "this" (some receiver), some closure.frame⟩
  let inside := m.addFrame (.receiver closure.decl receiver) frame
  have hstep : bindReceiver closure receiver m =
      .ok { closure with id := m.nextId, frame := m.frames.size }
      { inside with nextId := m.nextId + 1 } := by
    have hframes := FrameStore.bind_addEmpty m.frames (some closure.frame) "this" (some receiver)
    show EStateM.Result.ok _
      ({ m with frames := (m.frames.addEmpty _).bind _ _ _, origins := _, nextId := _ } : Machine) =
      _
    rw [hframes]
    rfl
  refine holds_of_ok _ _ hstep fun hsound hcurrent => ?_
  have hext : m.Extends inside := m.extends_addFrame _ frame
  have hcount : inside.Extends { inside with nextId := m.nextId + 1 } := ⟨rfl, id, id, id⟩
  have hinside : R.Sound inside := by
    refine hsound.addFrame (fun {name v} hv => ?_) (fun _ decl v heq => ?_)
      (fun _ declaration definition heq => ?_)
    · rw [Table.find?_insert] at hv
      split at hv
      · rw [← Option.some.inj (Option.some.inj hv)]
        exact hreceiver
      · cases hv
    · cases heq
      exact Table.find?_insert ∅ "this" "this" (some receiver)
    · cases heq
  have hsite : (Origin.receiver closure.decl receiver).site? =
      some (.receiver kind closure.decl) := by rw [Origin.site?, hkind]
  have hframe : inside.Linked m.frames.size (.receiver kind closure.decl :: p.sites) :=
    hlinked.addFrame hsound.size hsite _
  refine ⟨hext.trans hcount, hinside.congr rfl rfl rfl rfl rfl rfl,
    hcurrent.mono (hext.trans hcount), ?_⟩
  have horigin := m.origin_addFrame hsound.size (.receiver closure.decl receiver) frame
  refine ⟨⟨p.enter (.receiver kind closure.decl) ["this"], kind.bodyKind closure.decl, ?_, hallows,
    hframe.mono hcount⟩, fun _ => ⟨_, _, horigin⟩⟩
  cases kind with
  | ofInstance =>
      simp only [MethodKind.bodyKind, Resolve.methodKind]
      split <;> simp
  | ofClass => simp [MethodKind.bodyKind]

theorem holds_defineParams {frame : FrameId} {params : List Token} {arguments : List Value}
    (hparams : R.fromText → ∀ param ∈ params, Ordinary param.lexeme)
    (harguments : ∀ v ∈ arguments, v.Sound R m) :
    Holds R sites (defineParams frame params arguments) (defineParams frame params arguments)
      (fun _ _ => True) m := by
  induction params generalizing arguments m with
  | nil => exact holds_pure () fun _ => trivial
  | cons param params ih =>
      cases arguments with
      | nil => exact holds_pure () fun _ => trivial
      | cons argument arguments =>
          have hdefine : Holds R sites (define frame param.lexeme argument)
              (define frame param.lexeme argument) (fun _ _ => True) m :=
            holds_define (harguments argument (List.mem_cons_self ..))
              (fun htext => hparams htext param (List.mem_cons_self ..))
          refine hdefine.bind fun _ m' hext _ => ?_
          refine ih (fun htext other hother => hparams htext other (List.mem_cons_of_mem _ hother))
            fun v hv => ?_
          exact (harguments v (List.mem_cons_of_mem _ hv)).mono (.refl R) hext

/-- Whatever a frame holds under a name is sound. -/
theorem read_sound (hsound : R.Sound m) {frame : FrameId} {name : String} {v : Value}
    (h : m.frames.read frame name = .ok v) :
    v.Sound R m := by
  unfold FrameStore.read at h
  split at h
  next hfind =>
    cases h
    exact hsound.slots hfind
  next => cases h
  next => cases h

theorem read_of_find? {frame : FrameId} {name : String} {v : Value}
    (h : (m.frames.slots frame).find? name = some (some v)) :
    m.frames.read frame name = .ok v := by
  rw [FrameStore.read, h]

/-- In a tree put together by hand the frame of an initializer may bind nothing; that is an error,
but no fault. -/
theorem permits_readError (htext : ¬ R.fromText) {frame : FrameId} {name : String}
    {error : FrameError} (line : Option Nat) (h : m.frames.read frame name = .error error) :
    R.Permits (.ofFrameError line error) := by
  unfold FrameStore.read at h
  split at h
  next => cases h
  next =>
    cases h
    exact R.permits_error fun h => (htext h).elim
  next =>
    cases h
    exact R.permits_error fun h => (htext h).elim

/-- How a body ends decides the value of a call; an initializer yields the receiver its frame
binds. -/
theorem holds_callResult {closure : Closure} (hbound : closure.Bound R m) {flow : Flow}
    (hjump : ¬ flow.IsJump) (hflow : ∀ v, flow = .returning v → v.Sound R m) :
    Holds R sites (callResult closure flow) (callResult closure flow)
      (fun v m' => v.Sound R m') m := by
  unfold callResult
  split
  next hinitializer =>
    obtain ⟨decl, v, horigin⟩ := hbound.receiver hinitializer
    have hread : Holds R sites (readAt closure.frame 0 "this") (readAt closure.frame 0 "this")
        (fun found m' => m'.frames.read closure.frame "this" = found ∧ R.Sound m') m :=
      holds_of_ok _ m rfl fun hsound hlinked => ⟨.refl m, hsound, hlinked, rfl, hsound⟩
    refine hread.bind fun found m' hext hfound => ?_
    obtain ⟨hfound, hsound⟩ := hfound
    cases found with
    | ok receiver => exact holds_pure receiver fun _ => read_sound hsound hfound
    | error error =>
        have htext : ¬ R.fromText := by
          intro htext
          rw [read_of_find? (hsound.receivers htext (hext.origins horigin))] at hfound
          cases hfound
        exact holds_throw (permits_readError htext none hfound)
  next =>
    cases flow with
    | returning value => exact holds_pure value fun _ => hflow value rfl
    | normal => exact holds_pure Value.nil fun _ => trivial
    | breaking | continuing => exact (hjump trivial).elim

/-- A call of a function runs its body at the place inside the function, where no loop is open. -/
theorem holds_callClosure (hself : Related R self watching) {closure : Closure}
    {arguments : List Value} (hbound : closure.Bound R m)
    (harguments : ∀ v ∈ arguments, v.Sound R m) :
    Holds R sites (callClosure self closure arguments) (callClosure watching closure arguments)
      (fun v m' => v.Sound R m') m := by
  obtain ⟨p, kind, hkind, hallows, hlinked⟩ := hbound.code
  rw [FunctionDecl.uses_eq, Regime.allows_append] at hallows
  obtain ⟨hparams, hbody⟩ := hallows
  have hnames : R.fromText → ∀ param ∈ closure.decl.params, Ordinary param.lexeme :=
    fun htext param hparam => R.declare_ordinary htext (hparams _ (List.mem_map_of_mem hparam))
  have hframe : Holds R sites (newFrame (.call closure.decl) closure.frame)
      (newFrame (.call closure.decl) closure.frame)
      (fun frame m' => m'.Linked frame (.function closure.decl :: p.sites)) m :=
    holds_newFrame rfl (show Site.IsPlain (.function closure.decl) from trivial) hlinked
  refine hframe.bind fun frame m₁ hext₁ hframe => ?_
  refine (holds_defineParams hnames fun v hv => (harguments v hv).mono (.refl R) hext₁).bind
    fun _ m₂ hext₂ _ => ?_
  have hinside : m₂.Linked frame (p.enterFunction kind closure.decl).sites := by
    rw [Place.sites_enterFunction]
    exact hframe.mono hext₂
  have hentry : (p.enterFunction kind closure.decl).IsEntry :=
    fun _ _ _ => Place.inLoop_enterFunction kind closure.decl p
  refine (hself.executeBlock hbody hentry hinside).bind fun flow m₃ hext₃ hflow => ?_
  refine holds_callResult (hbound.mono (.refl R) ((hext₁.trans hext₂).trans hext₃))
    (fun hjump => ?_) (fun v hv => ?_)
  · cases flow with
    | normal | returning _ => exact hjump
    | breaking | continuing =>
        have hloop : (p.enterFunction kind closure.decl).inLoop = true := hflow
        rw [Place.inLoop_enterFunction] at hloop
        cases hloop
  · subst hv
    exact hflow.2

theorem holds_checkArity (line expected got : Nat) :
    Holds R sites (checkArity line expected got) (checkArity line expected got)
      (fun _ _ => True) m := by
  unfold checkArity
  split
  · exact holds_pure () fun _ => trivial
  · exact holds_raise _ _

theorem holds_construct (hself : Related R self watching) {definition : Class}
    {arguments : List Value} (hclass : definition.Sound R m)
    (harguments : ∀ v ∈ arguments, v.Sound R m) :
    Holds R sites (construct self definition arguments) (construct watching definition arguments)
      (fun v m' => v.Sound R m') m := by
  refine holds_newHolder.bind fun id m₁ hext₁ _ => ?_
  have hclass₁ := hclass.mono (.refl R) hext₁
  cases hinit : definition.initializer? with
  | none => exact holds_pure _ fun _ => hclass₁
  | some init =>
      have hmember : init.Member R m₁ .ofInstance := hclass₁.findMethod hinit
      have hinst : (Value.object ⟨id, definition⟩).Sound R m₁ := hclass₁
      refine (holds_bindReceiver hmember hinst rfl).bind fun bound m₂ hext₂ hbound => ?_
      refine (holds_callClosure hself hbound fun v hv => (harguments v hv).mono (.refl R)
        (hext₁.trans hext₂)).bind fun _ m₃ hext₃ _ => ?_
      exact holds_pure _ fun _ => hclass₁.mono (.refl R) (hext₂.trans hext₃)

/-! ### Native functions -/

/-- What an honest action may hand on is sound if all it knows is. -/
theorem sound_of_known {known : List Value} (hknown : ∀ v ∈ known, v.Sound R m) {v : Value}
    (h : v.IsPlain ∨ v ∈ known) : v.Sound R m :=
  h.elim (fun hplain => hplain.sound R m) (hknown v)

theorem holds_perform (hself : Related R self watching) {action : Action} {known : List Value}
    (hpasses : action.Passes known) (hraises : ∀ cause, action.Raises cause → R.Blames cause)
    (hknown : ∀ v ∈ known, v.Sound R m) :
    Holds R sites (perform self action) (perform watching action) (fun v m' => v.Sound R m') m := by
  induction action generalizing known m with
  | done value => exact holds_pure value fun _ => sound_of_known hknown hpasses
  | fail cause => exact holds_raise? fun _ _ => hraises cause rfl
  | write text next ih =>
      exact (holds_write text).bind fun _ _ hext _ => ih hpasses hraises fun v hv =>
        (hknown v hv).mono (.refl R) hext
  | readLine next ih =>
      refine (holds_readLine fun _ => hraises _ (.inl rfl)).bind fun line _ hext _ => ?_
      exact ih line (hpasses line) (fun cause h => hraises cause (.inr ⟨line, h⟩)) fun v hv =>
        (hknown v hv).mono (.refl R) hext
  | readClock next ih =>
      refine holds_readClock.bind fun seconds _ hext _ => ?_
      exact ih seconds (hpasses seconds) (fun cause h => hraises cause ⟨seconds, h⟩) fun v hv =>
        (hknown v hv).mono (.refl R) hext
  | pick low high next ih =>
      refine (holds_pick low high).bind fun n _ hext _ => ?_
      exact ih n (hpasses n) (fun cause h => hraises cause ⟨n, h⟩) fun v hv =>
        (hknown v hv).mono (.refl R) hext
  | call callee line arguments next ih =>
      obtain ⟨hgiven, hnext⟩ := hpasses
      have hcallee := sound_of_known hknown (hgiven callee (List.mem_cons_self ..))
      have harguments : ∀ v ∈ arguments, v.Sound R m :=
        fun v hv => sound_of_known hknown (hgiven v (List.mem_cons_of_mem _ hv))
      refine (hself.invoke hcallee harguments).bind fun value m' hext hvalue => ?_
      refine ih value (hnext value) (fun cause h => hraises cause ⟨value, h⟩) fun v hv => ?_
      rcases List.mem_cons.1 hv with rfl | hold
      · exact hvalue
      · exact (hknown v hold).mono (.refl R) hext

theorem holds_nativeAction {ref : NativeRef} (href : (Value.native ref).Sound R m)
    (arguments : List Value) :
    Holds R sites (nativeAction ref arguments) (nativeAction ref arguments)
      (fun action _ => action.Passes arguments ∧ ∀ cause, action.Raises cause →
          R.Blames cause) m := by
  obtain ⟨native, hnative⟩ := href
  intro hsound hlinked
  obtain ⟨hhonest, hhosts⟩ := hsound.natives native (Array.mem_of_getElem? hnative)
  simp only [nativeAction, hnative]
  exact ⟨trivial, .refl m, hsound, hlinked, hhonest arguments,
    fun cause hraises => ⟨native, hhosts, arguments, hraises⟩⟩

/-- A call of any value. -/
theorem holds_invokeStep (hself : Related R self watching) {callee : Value} (line : Nat)
    {arguments : List Value} (hcallee : callee.Sound R m)
    (harguments : ∀ v ∈ arguments, v.Sound R m) :
    Holds R sites (invokeStep self callee line arguments)
      (invokeStep watching callee line arguments) (fun v m' => v.Sound R m') m := by
  cases callee with
  | function closure =>
      refine (holds_checkArity line _ _).bind fun _ m' hext _ => ?_
      exact holds_callClosure hself (Closure.Bound.mono (.refl R) hext hcallee) fun v hv =>
        (harguments v hv).mono (.refl R) hext
  | native ref =>
      refine (holds_checkArity line _ _).bind fun _ m₁ hext₁ _ => ?_
      refine (holds_nativeAction (hcallee.mono (.refl R) hext₁) arguments).bind
        fun action m₂ hext₂ haction => ?_
      exact holds_perform hself haction.1 haction.2 fun v hv =>
        (harguments v hv).mono (.refl R) (hext₁.trans hext₂)
  | classValue definition =>
      refine (holds_checkArity line _ _).bind fun _ m' hext _ => ?_
      exact holds_construct hself (Class.Sound.mono (.refl R) hext hcallee) fun v hv =>
        (harguments v hv).mono (.refl R) hext
  | nil | bool _ | number _ | string _ | object _ | traitValue _ => exact holds_raise _ _

end Eval
end TraitScript
