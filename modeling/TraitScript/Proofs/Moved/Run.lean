import TraitScript.Proofs.Method.Declare
import TraitScript.Proofs.Moved.Calls

/-!
# Running the same code in different frames

One step of evaluators that move makes moving evaluators again, so by induction on the fuel the
evaluators of any fuel move. Both runs always have the same fuel left.
-/

namespace TraitScript.Eval

variable {S : Sight} {self : Evaluators}

/-! ### Traits -/

structure Members.Moved (P : FramePairs) (members members' : Members) : Prop where
  methods : members.methods.Moved P members'.methods
  classMethods : members.classMethods.Moved P members'.classMethods

theorem Members.Moved.mono {P P' : FramePairs} (hle : P ≤ P') {members members' : Members}
    (h : members.Moved P members') : members.Moved P' members' :=
  ⟨MethodTable.Moved.mono hle h.methods, MethodTable.Moved.mono hle h.classMethods⟩

theorem Members.moved_empty (P : FramePairs) : Members.Moved P {} {} :=
  ⟨Table.alike_empty, Table.alike_empty⟩

theorem matches_merge (line : Option Nat) (conflict : String → RuntimeError.Cause)
    {entries entries' : List (String × Closure)}
    (hentries : List.Forall₂
      (fun entry entry' => entry'.1 = entry.1 ∧ entry.2.Moved S.shared entry'.2) entries entries')
    {table table' : MethodTable} (htable : table.Moved S.shared table') :
    Matches S (merge line conflict entries table) (merge line conflict entries' table')
      MethodTable.Moved := by
  induction hentries generalizing table table' with
  | nil => exact matches_pure htable
  | @cons entry entry' _ _ hentry _ ih =>
      obtain ⟨name, method⟩ := entry
      obtain ⟨_, method'⟩ := entry'
      obtain ⟨rfl, hmethod⟩ := hentry
      unfold merge
      dsimp only
      rw [htable.contains]
      split
      · exact matches_raise _ _
      · exact ih (htable.insert _ hmethod)

/-- The same trait is walked in the same order in both runs, whose worlds are the same. -/
theorem matches_mergeTable (line : Option Nat) (conflict : String → RuntimeError.Cause)
    {used used' : Trait} (hid : used'.id = used.id) (ofClass : Bool)
    {theirs theirs' table table' : MethodTable} (htheirs : theirs.Moved S.shared theirs')
    (htable : table.Moved S.shared table') :
    Matches S (mergeTable line conflict used ofClass theirs table)
      (mergeTable line conflict used' ofClass theirs' table') MethodTable.Moved := by
  intro m m' hsees
  have hentries := MethodTable.Like.arrange htheirs (m.world.order used.id ofClass)
  simp only [mergeTable, walk, Bind.bind, EStateM.bind, hid, hsees.moved.world]
  exact matches_merge line conflict hentries htable m m' hsees

theorem matches_evaluateTrait (hself : self.Moves) {expr : Expr} (h : S.Allows expr.isCaptureFree) :
    Matches S (evaluateTrait self expr) (evaluateTrait self expr)
      (fun P used used' => used'.id = used.id ∧ used.methods.Moved P used'.methods ∧
        used.classMethods.Moved P used'.classMethods) := by
  refine (hself.evaluate h).bind fun hle hv => ?_
  have hshown := hv.display_eq Closure.Moved.resembles
  cases hv with
  | traitValue id name hmethods hclassMethods =>
      exact matches_pure ⟨rfl, hmethods, hclassMethods⟩
  | _ =>
      dsimp only
      rw [hshown]
      split
      · exact matches_raiseAt _ _
      · exact matches_raise _ _

theorem matches_useTraits (hself : self.Moves) {traits : List Expr}
    (h : S.Allows (Expr.areCaptureFree traits)) {members members' : Members}
    (hmembers : members.Moved S.shared members') :
    Matches S (useTraits self traits members) (useTraits self traits members') Members.Moved := by
  induction traits generalizing S members members' with
  | nil => exact matches_pure hmembers
  | cons expr traits ih =>
      rw [Expr.areCaptureFree] at h
      refine (matches_evaluateTrait hself h.and.1).bind fun hle₁ hused => ?_
      obtain ⟨hid, hmethods, hclassMethods⟩ := hused
      have hmembers₁ := hmembers.mono hle₁
      refine (matches_mergeTable (S := S.widen hle₁) _ _ hid false hmethods hmembers₁.methods).bind
        fun hle₂ hjoined => ?_
      have hclassMethods₂ := MethodTable.Moved.mono hle₂ hclassMethods
      have hmembers₂ := hmembers₁.mono hle₂
      refine (matches_mergeTable (S := (S.widen hle₁).widen hle₂) _ _ hid true hclassMethods₂
        hmembers₂.classMethods).bind fun hle₃ hclassJoined => ?_
      exact ih (((h.and.2.widen hle₁).widen hle₂).widen hle₃)
        ⟨MethodTable.Moved.mono hle₃ hjoined, hclassJoined⟩

theorem matches_addNewMethods (owner : Token) (conflict : String → RuntimeError.Cause)
    {a b : FrameId} (hab : S.shared a b) (isInitializer : String → Bool) {decls : List FunctionDecl}
    {table table' : MethodTable} (htable : table.Moved S.shared table') :
    Matches S (addNewMethods owner conflict a isInitializer decls table)
      (addNewMethods owner conflict b isInitializer decls table')
      MethodTable.Moved := by
  induction decls generalizing S table table' with
  | nil => exact matches_pure htable
  | cons decl decls ih =>
      unfold addNewMethods
      rw [htable.contains]
      split
      · exact matches_raise _ _
      · refine (matches_makeClosure decl hab _).bind fun hle hmethod => ?_
        exact ih (hle _ _ hab) ((MethodTable.Moved.mono hle htable).insert _ hmethod)

theorem moved_withMethods {P : FramePairs} {a b : FrameId} (hab : P a b)
    (isInitializer : String → Bool) (decls : List FunctionDecl) (nextId : Nat)
    {table table' : MethodTable} (htable : table.Moved P table') :
    MethodTable.Moved P (withMethods a isInitializer decls nextId table)
      (withMethods b isInitializer decls nextId table') := by
  induction decls generalizing nextId table table' with
  | nil => exact htable
  | cons decl decls ih =>
      have hmethod : Closure.Moved P ⟨nextId, decl, a, isInitializer decl.key⟩
          ⟨nextId, decl, b, isInitializer decl.key⟩ := ⟨rfl, rfl, rfl, hab⟩
      exact ih (nextId + 1) (htable.insert _ hmethod)

theorem matches_declareTrait (hself : self.Moves) (hopen : S.Open) (name : Token)
    (body : ClassBody) :
    Matches S (declareTrait self name body) (declareTrait self name body) Flow.Moved := by
  refine (matches_useTraits hself (.inl hopen) (Members.moved_empty _)).bind fun hle₁ hused => ?_
  refine matches_currentFrame.bind fun hle₂ hframe => ?_
  obtain ⟨-, rfl, rfl⟩ := hframe
  have hopen₂ := (hopen.widen hle₁).widen hle₂
  have hused₂ := hused.mono hle₂
  refine (matches_addNewMethods name _ hopen₂ _ hused₂.classMethods).bind
    fun hle₃ hclassMethods => ?_
  have hopen₃ := hopen₂.widen hle₃
  refine (matches_addNewMethods name _ hopen₃ _ (hused₂.mono hle₃).methods).bind
    fun hle₄ hmethods => ?_
  refine matches_freshId.bind fun {P _ id} hle₅ hid => ?_
  subst hid
  have hvalue := Value.Like.traitValue (F := Closure.Moved P) id name.lexeme
    (MethodTable.Moved.mono hle₅ hmethods)
    (MethodTable.Moved.mono (hle₄.trans hle₅) hclassMethods)
  refine (matches_define (.inl ((hopen₃.widen hle₄).widen hle₅)) name.lexeme hvalue).bind fun _ _ =>
    ?_
  exact (matches_record _ _).bind fun _ _ => matches_pure .normal

/-! ### Classes -/

theorem matches_evaluateSuperclass (hself : self.Moves) (hopen : S.Open) (name : Token)
    (parent : Option Expr) :
    Matches S (evaluateSuperclass self name parent) (evaluateSuperclass self name parent)
      (fun P => Option.Rel (Class.Moved P)) := by
  cases parent with
  | none => exact matches_pure .none
  | some expr =>
      refine (hself.evaluate (.inl hopen)).bind fun hle hv => ?_
      cases hv with
      | classValue hdefinition => exact matches_pure (.some hdefinition)
      | _ => exact matches_raiseAt _ _

section DeclaringClass

variable {m m' : Machine} {superclass superclass' : Option Class} {used used' : Members}

/-- The frame of the methods of a class, made in frames that values lead to. -/
theorem moved_addSuper {P : FramePairs} {own : List (FrameId × FrameId)} (hmoved : m.Moved P own m')
    (hopen : P m.current m'.current)
    (hsuperclass : Option.Rel (Class.Moved P) superclass superclass') (declaration : Stmt) :
    ∃ P', P ≤ P' ∧
      (m.addSuper declaration superclass).Moved P' own (m'.addSuper declaration superclass') ∧
      P' (m.memberFrame superclass) (m'.memberFrame superclass') := by
  cases hsuperclass with
  | none => exact ⟨P, le_refl P, hmoved, hopen⟩
  | some hdefinition =>
      have hle := P.le_insert m.frames.size m'.frames.size
      have hslots := Table.Matches.insert (SlotsMatch.empty P) "super"
        (.some (.classValue hdefinition))
      have hframes := hmoved.frames.add_shared hslots (.some hopen)
      exact ⟨_, hle, hmoved.withFrames hle hframes (hmoved.globals_add _) _ _, .inr ⟨rfl, rfl⟩⟩

/-- The class that both declarations make, with its members in the frames for them. -/
theorem moved_newClass {P : FramePairs}
    (hframe : P (m.memberFrame superclass) (m'.memberFrame superclass'))
    (hid : m'.fields.size = m.fields.size) (hnext : m'.nextId = m.nextId)
    (hsuperclass : Option.Rel (Class.Moved P) superclass superclass') (hused : used.Moved P used')
    (name : Token) (body : ClassBody) :
    (m.newClass name body superclass used).Moved P (m'.newClass name body superclass' used') := by
  have hclassMethods := moved_withMethods hframe (fun _ => false) body.classMethods m.nextId
    hused.classMethods
  have hmethods := moved_withMethods hframe isInitializerName body.methods
    (m.nextId + body.classMethods.length) hused.methods
  simp only [Machine.newClass, Machine.declared, Machine.firstId, hid, hnext]
  cases hsuperclass with
  | none => exact .root hmethods hclassMethods
  | some hparent => exact .derived hparent hmethods hclassMethods

theorem matches_finishClass (hopen : S.Open)
    (hsuperclass : Option.Rel (Class.Moved S.shared) superclass superclass')
    (hused : used.Moved S.shared used') (name : Token) (parent : Option Expr) (body : ClassBody) :
    Matches S (finishClass name parent body superclass used)
      (finishClass name parent body superclass' used') Flow.Moved := by
  refine matches_of_ok fun m m' hsees => ?_
  have hmoved := hsees.moved
  have hcurrent : S.shared m.current m'.current := by rw [hsees.left, hsees.right]; exact hopen
  obtain ⟨P, hle, hinside, hframe⟩ := moved_addSuper hmoved hcurrent hsuperclass
    (.classDecl name parent body)
  have hsuperclass := rel_weaken hsuperclass fun h => Class.Moved.mono hle h
  have hdefinition := moved_newClass hframe hmoved.fields.1 hmoved.nextId hsuperclass
    (hused.mono hle) name body
  have hbound :=
    hinside.bind (.inl (hle _ _ hcurrent)) name.lexeme (.some (.classValue hdefinition))
  refine ⟨P, _, _, _, _, finishClass_eq .., finishClass_eq .., hle, ?_, addSuper_current ..,
    addSuper_current .., .normal⟩
  refine { hbound with fields := ?_, nextId := ?_ }
  · have hfields := hbound.newHolder.fields
    simp only [addSuper_fields] at hfields
    exact hfields
  · simp only [Machine.addClass, hmoved.nextId]

theorem matches_declareClass (hself : self.Moves) (hopen : S.Open) (name : Token)
    (parent : Option Expr) (body : ClassBody) :
    Matches S (declareClass self name parent body)
      (declareClass self name parent body) Flow.Moved := by
  rw [declareClass_eq]
  refine (matches_evaluateSuperclass hself hopen name parent).bind fun hle₁ hsuperclass => ?_
  refine (matches_useTraits hself (.inl (hopen.widen hle₁)) (Members.moved_empty _)).bind
    fun hle₂ hused => ?_
  exact matches_finishClass ((hopen.widen hle₁).widen hle₂)
    (rel_weaken hsuperclass fun h => Class.Moved.mono hle₂ h) hused name parent body

end DeclaringClass

/-! ### Properties -/

theorem matches_bindMethod (hself : self.Moves) {method method' : Closure}
    (hmethod : method.Moved S.shared method') {receiver receiver' : Value}
    (hreceiver : receiver.Moved S.shared receiver') :
    Matches S (bindMethod self method receiver)
      (bindMethod self method' receiver') Value.Moved := by
  refine (matches_bindReceiver hmethod hreceiver).bind fun hle hbound => ?_
  rw [hbound.resembles.isGetter]
  split
  · exact matches_callClosure hself hbound .nil
  · exact matches_pure (.function hbound)

theorem matches_getProperty (hself : self.Moves) {object object' : Value}
    (hobject : object.Moved S.shared object') (name : Token) :
    Matches S (getProperty self object name) (getProperty self object' name) Value.Moved := by
  unfold getProperty
  rw [hobject.holder?_eq]
  split
  · exact matches_raiseAt _ _
  · refine (matches_field? _ name.lexeme).bind fun hle hfound => ?_
    cases hfound with
    | some hvalue => exact matches_pure hvalue
    | none =>
        dsimp only
        rcases rel_cases ((Value.Moved.mono hle hobject).findMethod name.lexeme) with
          ⟨hleft, hright⟩ | ⟨method, method', hleft, hright, hmethod⟩
        · rw [hleft, hright]
          exact matches_raiseAt _ _
        · rw [hleft, hright]
          exact matches_bindMethod hself hmethod (Value.Moved.mono hle hobject)

theorem matches_readSuperclass (distance : Nat) :
    Matches S (readSuperclass distance) (readSuperclass distance) Class.Moved := by
  refine matches_currentFrame.bind fun hle₁ hframe => ?_
  refine (matches_readAt hframe.1 distance "super").bind fun hle₂ hfound => ?_
  cases hfound with
  | ok hvalue => cases hvalue with
    | classValue hdefinition => exact matches_pure hdefinition
    | _ => exact matches_fault _
  | error error => cases error <;> exact matches_fault _

theorem matches_readReceiver (distance : Nat) (keyword : Token) :
    Matches S (readReceiver distance keyword) (readReceiver distance keyword) Value.Moved := by
  refine matches_currentFrame.bind fun hle₁ hframe => ?_
  refine (matches_readAt hframe.1 _ "this").bind fun hle₂ hfound => ?_
  cases hfound with
  | ok hvalue => exact matches_pure hvalue
  | error error => exact matches_throw _

theorem superMethod_moved {P : FramePairs} {superclass superclass' : Class}
    (hsuperclass : superclass.Moved P superclass') {receiver receiver' : Value}
    (hreceiver : receiver.Moved P receiver') (name : String) :
    Option.Rel (Closure.Moved P) (superMethod superclass receiver name)
      (superMethod superclass' receiver' name) := by
  cases hreceiver with
  | classValue _ => exact hsuperclass.findClassMethod name
  | _ => exact hsuperclass.findMethod name

theorem matches_getSuper (hself : self.Moves) (id : Nat) (keyword method : Token) :
    Matches S (getSuper self id keyword method) (getSuper self id keyword method) Value.Moved := by
  refine (matches_distance? id).bind fun {_ _ found} hle₁ hdistance => ?_
  subst hdistance
  cases found with
  | none => exact matches_fault _
  | some distance =>
      refine (matches_readSuperclass distance).bind fun hle₂ hsuperclass => ?_
      refine (matches_readReceiver distance keyword).bind fun hle₃ hreceiver => ?_
      rcases rel_cases (superMethod_moved (Class.Moved.mono hle₃ hsuperclass) hreceiver
        method.lexeme) with
        ⟨hleft, hright⟩ | ⟨found, found', hleft, hright, hfound⟩
      · rw [hleft, hright]
        exact matches_raiseAt _ _
      · rw [hleft, hright]
        exact matches_bindMethod hself hfound hreceiver

/-! ### One step -/

theorem matches_applied (operator : Token) {result result' : Operator.Result}
    (h : Operator.Like (Closure.Moved S.shared) (Closure.Moved S.shared) result result') :
    Matches S (applied operator result) (applied operator result') Value.Moved := by
  cases h with
  | ok hvalue => exact matches_pure hvalue
  | error cause => exact matches_raiseAt _ _

theorem matches_evaluateAll (hself : self.Moves) {exprs : List Expr}
    (h : S.Allows (Expr.areCaptureFree exprs)) :
    Matches S (evaluateAll self exprs) (evaluateAll self exprs)
      (fun P => List.Forall₂ (Value.Moved P)) := by
  induction exprs generalizing S with
  | nil => exact matches_pure .nil
  | cons expr exprs ih =>
      rw [Expr.areCaptureFree] at h
      refine (hself.evaluate h.and.1).bind fun hle₁ hv => ?_
      refine (ih (h.and.2.widen hle₁)).bind fun hle₂ hvs => ?_
      exact matches_pure (.cons (Value.Moved.mono hle₂ hv) hvs)

theorem matches_evaluate? (hself : self.Moves) {expr : Option Expr}
    (h : S.Allows (Expr.isCaptureFree? expr)) :
    Matches S (evaluate? self expr) (evaluate? self expr)
      (fun P => Option.Rel (Value.Moved P)) := by
  cases expr with
  | none => exact matches_pure .none
  | some expr => exact (hself.evaluate h).bind fun _ hv => matches_pure (.some hv)

theorem matches_introduce (name : Token) {value value' : Option Value}
    (hvalue : Option.Rel (Value.Moved S.shared) value value') :
    Matches S (introduce name value) (introduce name value') (fun _ _ _ => True) := by
  cases hvalue with
  | none => exact matches_currentFrame.bind fun _ hframe => matches_declare hframe.1 name.lexeme
  | some hvalue =>
      refine matches_currentFrame.bind fun hle hframe => ?_
      exact matches_define hframe.1 name.lexeme (Value.Moved.mono hle hvalue)

theorem matches_declareFunction (hopen : S.Open) (decl : FunctionDecl) :
    Matches S (declareFunction decl) (declareFunction decl) Flow.Moved := by
  refine matches_currentFrame.bind fun hle₁ hframe => ?_
  obtain ⟨-, rfl, rfl⟩ := hframe
  refine (matches_makeClosure decl (hopen.widen hle₁) false).bind fun hle₂ hclosure => ?_
  cases decl.name with
  | none => exact matches_pure .normal
  | some name =>
      refine (matches_define (.inl ((hopen.widen hle₁).widen hle₂)) name.lexeme
        (.function hclosure)).bind fun _ _ => ?_
      exact matches_pure .normal

theorem matches_evaluateStep (hself : self.Moves) {expr : Expr} (h : S.Allows expr.isCaptureFree) :
    Matches S (evaluateStep self expr) (evaluateStep self expr) Value.Moved := by
  cases expr with simp only [Expr.isCaptureFree] at h
  | literal value => exact matches_pure (Value.like_ofLiteral value)
  | group inner => exact hself.evaluate h
  | unary operator right =>
      exact (hself.evaluate h).bind fun _ hv => matches_applied operator (Operator.like_unary _ hv)
  | binary left operator right =>
      refine (hself.evaluate h.and.1).bind fun hle₁ ha => ?_
      refine (hself.evaluate (h.and.2.widen hle₁)).bind fun hle₂ hb => ?_
      exact matches_applied operator
        (Operator.like_binary Closure.Moved.resembles _ (Value.Moved.mono hle₂ ha) hb)
  | logical left operator right =>
      refine (hself.evaluate h.and.1).bind fun hle hv => ?_
      rw [Operator.isDecided_like _ hv]
      split
      · exact matches_pure hv
      · exact hself.evaluate (h.and.2.widen hle)
  | conditional condition thenBranch elseBranch =>
      refine (hself.evaluate h.and.1).bind fun hle hv => ?_
      rw [hv.isTruthy_eq]
      split
      · exact hself.evaluate (h.and.2.and.1.widen hle)
      · exact hself.evaluate (h.and.2.and.2.widen hle)
  | «variable» id name => exact matches_readVariable id name
  | assign id name value =>
      refine (hself.evaluate h).bind fun hle₁ hv => ?_
      refine (matches_writeVariable id name hv).bind fun hle₂ _ => ?_
      exact matches_pure (Value.Moved.mono hle₂ hv)
  | call callee paren arguments =>
      refine (hself.evaluate h.and.1).bind fun hle₁ hcallee => ?_
      refine (matches_evaluateAll hself (h.and.2.widen hle₁)).bind fun hle₂ harguments => ?_
      exact hself.invoke _ (Value.Moved.mono hle₂ hcallee) harguments
  | function decl =>
      refine matches_currentFrame.bind fun hle hframe => ?_
      obtain ⟨-, rfl, rfl⟩ := hframe
      exact (matches_makeClosure decl (h.open.widen hle) false).bind fun _ hclosure =>
        matches_pure (.function hclosure)
  | get object name =>
    exact (hself.evaluate h).bind fun _ hobject => matches_getProperty hself hobject name
  | set object name value =>
      refine (hself.evaluate h.and.1).bind fun hle₁ hobject => ?_
      rw [hobject.holder?_eq]
      split
      · exact matches_raiseAt _ _
      · refine (hself.evaluate (h.and.2.widen hle₁)).bind fun hle₂ hv => ?_
        refine (matches_setField _ _ hv).bind fun hle₃ _ => ?_
        exact matches_pure (Value.Moved.mono hle₃ hv)
  | this id keyword => exact matches_readVariable id keyword
  | super id keyword method => exact matches_getSuper hself id keyword method

theorem matches_enterLoop (hself : self.Moves) {stmt : Option Stmt}
    (h : S.Allows (Stmt.isCaptureFree? stmt)) :
    Matches S (enterLoop self stmt) (enterLoop self stmt) (fun _ _ _ => True) := by
  cases stmt with
  | none => exact matches_pure trivial
  | some stmt => exact (hself.execute h).bind fun _ _ => matches_pure trivial

/-- A clause of a loop that may be missing. -/
theorem matches_clause (hself : self.Moves) {expr : Option Expr}
    (h : S.Allows (Expr.isCaptureFree? expr)) {x : Eval Value}
    (hx : expr.map self.evaluate = some x) : Matches S x x Value.Moved := by
  cases expr with
  | none => exact nomatch hx
  | some expr =>
      injection hx with hx
      subst hx
      exact hself.evaluate h

/-! ### Loops -/

/-- The frame of a loop that goes on in different ways, with code in it that may run there. -/
theorem leads_rounds (hself : self.Moves) {I : Sight → Prop} {next next' : Eval Unit}
    (hturns : Turns I next next') {own : List (FrameId × FrameId)} {free : Bool}
    (hI : ∀ {S}, I S → Sight.Round own free S)
    (hwiden : ∀ {S P} (hle : Sight.shared S ≤ P), I S → I (S.widen hle)) {initial : Option Stmt}
    {condition increment : Option Expr} {body : Stmt}
    (hfree : free = Stmt.isCaptureFree (.forLoop initial condition increment body)) (rounds : Nat)
    (hS : I S) :
    Leads S own (fun _ _ => True)
      (do enterLoop self initial
          loopWith next (condition.map self.evaluate) (increment.map self.evaluate)
            (self.execute body) rounds)
      (do enterLoop self initial
          loopWith next' (condition.map self.evaluate) (increment.map self.evaluate)
            (self.execute body) rounds)
      Flow.Moved := by
  have hparts : ∀ {S}, I S → S.Allows (Stmt.isCaptureFree? initial) ∧
      S.Allows (Expr.isCaptureFree? condition) ∧
      S.Allows (Expr.isCaptureFree? increment) ∧ S.Allows body.isCaptureFree := by
    intro S hS
    have hallows := (hI hS).allows
    simp only [hfree, Stmt.isCaptureFree] at hallows
    exact ⟨hallows.and.1, hallows.and.2.and.1, hallows.and.2.and.2.and.1, hallows.and.2.and.2.and.2⟩
  refine (matches_enterLoop hself (hparts hS).1).then (hI hS).suffix trivial fun hle _ => ?_
  exact leads_loopWith hturns hwiden (fun hS => (hI hS).suffix)
    (fun hS _ => matches_clause hself (hparts hS).2.1)
    (fun hS _ => matches_clause hself (hparts hS).2.2.1) (fun hS => hself.execute (hparts hS).2.2.2)
      rounds (hwiden hle hS)

theorem matches_forLoop (hself : self.Moves) (rounds : Nat) {initial : Option Stmt}
    {condition increment : Option Expr} {body : Stmt}
    (h : S.Allows (Stmt.isCaptureFree (.forLoop initial condition increment body))) :
    Matches S (executeStep self rounds (.forLoop initial condition increment body))
      (executeStep self rounds (.forLoop initial condition increment body)) Flow.Moved := by
  simp only [executeStep, forLoop_eq_loopWith]
  refine matches_inNewFrame h _ fun S' _ hround => ?_
  exact leads_rounds hself (turns_nextIteration _ _) (fun hS => hS) (fun hle hS => hS.widen hle)
    rfl rounds hround

/-! ### Statements -/

theorem matches_executeStep (hself : self.Moves) (rounds : Nat) {stmt : Stmt}
    (h : S.Allows stmt.isCaptureFree) :
    Matches S (executeStep self rounds stmt) (executeStep self rounds stmt) Flow.Moved := by
  cases stmt with
  | forLoop initial condition increment body => exact matches_forLoop hself rounds h
  | _ => ?_
  all_goals simp only [Stmt.isCaptureFree] at h
  case expression value => exact (hself.evaluate h).bind fun _ _ => matches_pure .normal
  case print value =>
    refine (hself.evaluate h).bind fun _ hv => ?_
    rw [hv.display_eq Closure.Moved.resembles]
    exact (matches_write _).bind fun _ _ => matches_pure .normal
  case «variable» name initial =>
    refine (matches_evaluate? hself h).bind fun _ hvalue => ?_
    exact (matches_introduce name hvalue).bind fun _ _ => matches_pure .normal
  case block statements =>
    simp only [executeStep, hself.executeBlock]
    exact matches_inNewFrame h _ fun S' _ hround =>
      (matches_executeAll hself.execute hround.allows).loose hround.suffix
  case ifElse condition thenBranch elseBranch =>
    refine (hself.evaluate h.and.1).bind fun hle hv => ?_
    rw [hv.isTruthy_eq]
    split
    · exact hself.execute (h.and.2.and.1.widen hle)
    · cases elseBranch with
      | none => exact matches_pure .normal
      | some branch => exact hself.execute (h.and.2.and.2.widen hle)
  case whileLoop condition body =>
    exact matches_whileLoop (fun hle => hself.evaluate (h.and.1.widen hle))
      (fun hle => hself.execute (h.and.2.widen hle)) rounds
  case jump _ kind => cases kind with
    | breakLoop => exact matches_pure .breaking
    | continueLoop => exact matches_pure .continuing
  case function decl => exact matches_declareFunction h.open decl
  case returnValue keyword value =>
    refine (matches_evaluate? hself h).bind fun _ hvalue => ?_
    cases hvalue with
    | none => exact matches_pure (.returning .nil)
    | some hvalue => exact matches_pure (.returning hvalue)
  case classDecl name parent body => exact matches_declareClass hself h.open name parent body
  case traitDecl name body => exact matches_declareTrait hself h.open name body

/-! ### Repeating the step -/

theorem Evaluators.moves_of {evaluate : Expr → Eval Value} {execute : Stmt → Eval Flow}
    {invoke : Value → Nat → List Value → Eval Value}
    (hevaluate : ∀ {S expr}, Sight.Allows S (Expr.isCaptureFree expr) →
      Matches S (evaluate expr) (evaluate expr) Value.Moved)
    (hexecute : ∀ {S stmt}, Sight.Allows S (Stmt.isCaptureFree stmt) →
      Matches S (execute stmt) (execute stmt) Flow.Moved)
    (hinvoke : ∀ {S callee callee'} line {arguments arguments'},
      Value.Moved S.shared callee callee' → List.Forall₂ (Value.Moved S.shared) arguments arguments'
      → Matches S (invoke callee line arguments) (invoke callee' line arguments') Value.Moved) :
    (Evaluators.of evaluate execute invoke).Moves where
  evaluate := hevaluate
  execute := hexecute
  executeBlock _ _ := rfl
  invoke := hinvoke

theorem moves_evaluators (fuel : Nat) : (evaluators fuel).Moves := by
  induction fuel with
  | zero =>
      apply Evaluators.moves_of
      · intro S expr _
        rw [evaluate]
        exact matches_throw _
      · intro S stmt _
        rw [execute]
        exact matches_throw _
      · intro S callee callee' line arguments arguments' _ _
        rw [invoke, invoke]
        exact matches_throw _
  | succ fuel ih =>
      apply Evaluators.moves_of
      · intro S expr h
        rw [evaluate]
        exact matches_evaluateStep ih h
      · intro S stmt h
        rw [execute]
        exact matches_executeStep ih fuel h
      · intro S callee callee' line arguments arguments' hcallee harguments
        rw [invoke, invoke]
        exact matches_invokeStep ih line hcallee harguments

/-! ### A loop in one frame -/

/-- Runs a `for` whose frame is never copied: every round goes on in the frame made for the loop. -/
def executeInPlace (self : Evaluators) (rounds : Nat) (initial : Option Stmt)
    (condition increment : Option Expr) (body : Stmt) : Eval Flow :=
  inNewFrame (.loop (.forLoop initial condition increment body)) do
    enterLoop self initial
    loopWith (pure ()) (condition.map self.evaluate) (increment.map self.evaluate)
      (self.execute body) rounds

/-- A loop that captures nothing does the same whether its frame is copied or not. -/
theorem matches_executeInPlace (hself : self.Moves) (rounds : Nat) {initial : Option Stmt}
    {condition increment : Option Expr} {body : Stmt}
    (h : Stmt.isCaptureFree (.forLoop initial condition increment body) = true) :
    Matches S (executeStep self rounds (.forLoop initial condition increment body))
      (executeInPlace self rounds initial condition increment body) Flow.Moved := by
  simp only [executeStep, forLoop_eq_loopWith]
  -- The frame of the loop is one to which no value leads, so the copies on one side may all stand
  -- for the one frame on the other.
  refine matches_inNewFrame_own _ fun S' _ hinner => ?_
  exact leads_rounds hself (turns_copy _) (fun hS => .inr ⟨hS, rfl⟩) (fun _ hS => hS)
    h.symm rounds hinner

end TraitScript.Eval
