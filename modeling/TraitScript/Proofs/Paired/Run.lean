import TraitScript.Eval.Run
import TraitScript.Proofs.Method.Declare
import TraitScript.Proofs.Paired.Calls

/-!
# Running two programs side by side

One step of evaluators that agree makes agreeing evaluators again, so by induction on the fuel the
evaluators of any fuel agree with themselves across the two programs. Both runs always have the same
fuel left.
-/

namespace TraitScript

variable {P : Pairing} {L L' : Layout} {marks inner : List Bool}

/-- What an error may say about an expression that is a name. -/
theorem Expr.Alike.name? {e e' : Expr} (h : Expr.Alike P.trees marks e e') :
    Option.Rel (fun t t' => P.said t.lexeme t'.lexeme ∧ P.lines t.line t'.line)
      e.name? e'.name? := by
  cases h with
  | «variable» h =>
      obtain ⟨-, -, hline, hsaid⟩ := P.of_occurrence h
      exact .some ⟨hsaid, hline⟩
  | _ => exact .none

theorem Expr.Alike.nameLine? {e e' : Expr} (h : Expr.Alike P.trees marks e e') :
    Option.Rel P.lines (e.name?.map (·.line)) (e'.name?.map (·.line)) := by
  rcases rel_cases h.name? with ⟨hleft, hright⟩ | ⟨t, t', hleft, hright, -, hline⟩
  · rw [hleft, hright]
    exact .none
  · rw [hleft, hright]
    exact .some hline

theorem FunctionDecl.Alike.line {decl decl' : FunctionDecl}
    (h : FunctionDecl.Alike P.trees marks decl decl') {owner owner' : Token}
    (howner : P.lines owner.line owner'.line) :
    P.lines (Eval.declLine owner decl) (Eval.declLine owner' decl') := by
  unfold Eval.declLine
  cases h with
  | intro _ hname _ _ =>
      rcases rel_cases hname with ⟨rfl, rfl⟩ | ⟨t, t', rfl, rfl, ht⟩
      · exact howner
      · exact (P.of_token ht).2.2

namespace Eval

variable {self self' : Evaluators}

/-! ### Traits -/

structure Members.Alike (P : Pairing) (L : Layout) (members members' : Members) : Prop where
  methods : members.methods.Alike P L members'.methods
  classMethods : members.classMethods.Alike P L members'.classMethods

theorem Members.alike_empty : Members.Alike P L {} {} := ⟨Table.alike_empty, Table.alike_empty⟩

theorem agree_merge {line line' : Option Nat} (hline : Option.Rel P.lines line line')
    (conflict : String → RuntimeError.Cause) {entries entries' : List (String × Closure)}
    (hentries : List.Forall₂ (fun entry entry' => entry'.1 = entry.1 ∧
      entry.2.Alike P L [false] entry'.2) entries entries')
    {table table' : MethodTable} (htable : table.Alike P L table') :
    Agree P L marks (merge line conflict entries table) (merge line' conflict entries' table')
      (fun L' => MethodTable.Alike P L') := by
  induction hentries generalizing table table' with
  | nil => exact agree_pure htable
  | @cons entry entry' _ _ hentry _ ih =>
      obtain ⟨name, method⟩ := entry
      obtain ⟨_, method'⟩ := entry'
      obtain ⟨rfl, hmethod⟩ := hentry
      unfold merge
      dsimp only
      rw [htable.contains]
      split
      · exact agree_raise hline _
      · exact ih (htable.insert _ hmethod)

/-- The same trait is walked in the same order in both runs, whose worlds are the same. -/
theorem agree_mergeTable {line line' : Option Nat} (hline : Option.Rel P.lines line line')
    (conflict : String → RuntimeError.Cause) {used used' : Trait} (hid : used'.id = used.id)
    (ofClass : Bool) {theirs theirs' table table' : MethodTable}
    (htheirs : theirs.Alike P L theirs') (htable : table.Alike P L table') :
    Agree P L marks (mergeTable line conflict used ofClass theirs table)
      (mergeTable line' conflict used' ofClass theirs' table')
      (fun L' => MethodTable.Alike P L') := by
  intro m m' hmachines hchain
  have hentries := MethodTable.Like.arrange htheirs (m.world.order used.id ofClass)
  simp only [mergeTable, walk, Bind.bind, EStateM.bind, hid, hmachines.world]
  exact agree_merge hline conflict hentries htable m m' hmachines hchain

theorem agree_evaluateTrait (hself : self.Agree P self') {e e' : Expr}
    (h : Expr.Alike P.trees marks e e') :
    Agree P L marks (evaluateTrait self e) (evaluateTrait self' e')
      (fun L' used used' => used'.id = used.id ∧ used.methods.Alike P L' used'.methods ∧
        used.classMethods.Alike P L' used'.classMethods) := by
  apply (hself.evaluate h).bind
  intro L' v v' _ hv
  have hshown := hv.display_eq
  have hname := rel_cases h.name?
  cases hv with
  | traitValue id name hmethods hclassMethods => exact agree_pure ⟨rfl, hmethods, hclassMethods⟩
  | _ =>
      -- The error speaks of the expression if that is a name, and of its value otherwise.
      rcases hname with ⟨hleft, hright⟩ | ⟨t, t', hleft, hright, hsaid, hline⟩
      · dsimp only
        rw [hleft, hright, hshown]
        exact agree_raise .none _
      · rw [hleft, hright]
        exact agree_raiseAt hline (.notTrait hsaid)

theorem agree_useTraits (hself : self.Agree P self') {traits traits' : List Expr}
    (h : Expr.AlikeAll P.trees marks traits traits') {members members' : Members}
    (hmembers : members.Alike P L members') :
    Agree P L marks (useTraits self traits members) (useTraits self' traits' members')
      (Members.Alike P) := by
  induction traits generalizing traits' members members' L with
  | nil =>
      cases h
      exact agree_pure hmembers
  | cons e traits ih =>
      cases h with
      | cons he hrest =>
          have hline := he.nameLine?
          apply (agree_evaluateTrait hself he).bind
          rintro L₁ used used' hle₁ ⟨hid, hmethods, hclassMethods⟩
          apply (agree_mergeTable hline _ hid false hmethods (hmembers.methods.mono hle₁)).bind
          intro L₂ joined joined' hle₂ hjoined
          apply (agree_mergeTable hline _ hid true (hclassMethods.mono hle₂)
            (hmembers.classMethods.mono (hle₁.trans hle₂))).bind
          intro L₃ classJoined classJoined' hle₃ hclassJoined
          exact ih hrest ⟨hjoined.mono hle₃, hclassJoined⟩

theorem agree_addNewMethods {owner owner' : Token} (howner : P.lines owner.line owner'.line)
    (conflict : String → RuntimeError.Cause) {frame : FrameId} (hframe : L.Chain inner frame)
    (isInitializer : String → Bool) {decls decls' : List FunctionDecl}
    (h : FunctionDecl.AlikeAll P.trees (false :: inner) decls decls') {table table' : MethodTable}
    (htable : table.Alike P L table') :
    Agree P L marks (addNewMethods owner conflict frame isInitializer decls table)
      (addNewMethods owner' conflict frame isInitializer decls' table')
      (fun L' => MethodTable.Alike P L') := by
  induction decls generalizing decls' table table' L with
  | nil =>
      cases h
      exact agree_pure htable
  | cons decl decls ih =>
      cases h with
      | cons hdecl hrest =>
          unfold addNewMethods
          rw [hdecl.key_eq, htable.contains]
          split
          · exact agree_raise (.some (hdecl.line howner)) _
          · apply (agree_makeClosure [false] hframe hdecl _).bind
            intro L' method method' hle hmethod
            exact ih (hframe.mono hle) hrest ((htable.mono hle).insert _ hmethod)

theorem alike_withMethods {frame : FrameId} (hframe : L.Chain inner frame)
    (isInitializer : String → Bool) {decls decls' : List FunctionDecl}
    (h : FunctionDecl.AlikeAll P.trees (false :: inner) decls decls') (nextId : Nat)
    {table table' : MethodTable} (htable : table.Alike P L table') :
    MethodTable.Alike P L (withMethods frame isInitializer decls nextId table)
      (withMethods frame isInitializer decls' nextId table') := by
  induction decls generalizing decls' nextId table table' with
  | nil =>
      cases h
      exact htable
  | cons decl decls ih =>
      cases h with
      | @cons _ _ decl' _ _ hdecl hrest =>
          rw [withMethods, withMethods, hdecl.key_eq]
          have hmethod : Closure.Alike P L [false] ⟨nextId, decl, frame, isInitializer decl.key⟩
              ⟨nextId, decl', frame, isInitializer decl.key⟩ :=
                ⟨rfl, rfl, rfl, inner, hframe, hdecl⟩
          exact ih hrest (nextId + 1) (htable.insert _ hmethod)

theorem agree_declareTrait (hself : self.Agree P self') {name name' : Token}
    (hname : P.trees.named (innermost marks) name name') {body body' : ClassBody}
    (hbody : ClassBody.Alike P.trees marks (false :: marks) body body') :
    Agree P L marks (declareTrait self name body) (declareTrait self' name' body')
      (Flow.Alike P) := by
  obtain ⟨hlexeme, hkept, hline⟩ := P.of_named hname
  cases hbody with
  | intro htraits hmethods hclassMethods =>
      apply (agree_useTraits hself htraits Members.alike_empty).bind
      intro L₁ used used' _ hused
      apply agree_currentFrame.bind
      rintro L₂ _ frame hle₂ ⟨rfl, hframe⟩
      apply (agree_addNewMethods hline _ hframe _ hclassMethods (hused.classMethods.mono hle₂)).bind
      intro L₃ classMethods₁ classMethods₁' hle₃ hclassMethods₁
      apply (agree_addNewMethods hline _ (hframe.mono hle₃) _ hmethods
        (hused.methods.mono (hle₂.trans hle₃))).bind
      intro L₄ methods₁ methods₁' hle₄ hmethods₁
      apply agree_freshId.bind
      rintro L₅ _ id hle₅ rfl
      rw [hlexeme]
      have hvalue := Value.Alike.traitValue id name.lexeme (hmethods₁.mono hle₅)
        (hclassMethods₁.mono (hle₄.trans hle₅))
      apply (agree_define (hframe.mono ((hle₃.trans hle₄).trans hle₅)) hkept.symm hvalue).bind
      rintro L₆ _ _ _ -
      apply (agree_record _ _).bind
      rintro L₇ _ _ _ -
      exact agree_pure .normal

/-! ### Classes -/

theorem agree_evaluateSuperclass (hself : self.Agree P self') {name name' : Token}
    (hname : P.lines name.line name'.line) {e e' : Option Expr}
    (h : Expr.Alike? P.trees marks e e') :
    Agree P L marks (evaluateSuperclass self name e) (evaluateSuperclass self' name' e')
      (fun L' parent parent' => parent.isSome = e.isSome ∧
          Option.Rel (Class.Alike P L') parent parent') := by
  cases h with
  | none => exact agree_pure ⟨rfl, .none⟩
  | @some _ e e' h =>
      have hline : P.lines (e.name?.getD name).line (e'.name?.getD name').line := by
        rcases rel_cases h.name? with ⟨hleft, hright⟩ | ⟨t, t', hleft, hright, -, hline⟩
        · rw [hleft, hright]
          exact hname
        · rw [hleft, hright]
          exact hline
      apply (hself.evaluate h).bind
      intro L' v v' _ hv
      cases hv with
      | classValue hdefinition => exact agree_pure ⟨rfl, .some hdefinition⟩
      | _ => exact agree_raiseAt hline (.same _)

/-- The marks of the scope around the members of a subclass, if it is one. -/
def superMarks (isSubclass : Bool) : List Bool := if isSubclass then [false] else []

section DeclaringClass

variable {outside : List Bool} {m m' : Machine} {superclass superclass' : Option Class}
  {name name' : Token}
  {parent parent' : Option Expr} {body body' : ClassBody} {used used' : Members}

/-- The frame of the methods of a class. -/
theorem machines_addSuper (hmachines : Machines P L m m') (hchain : L.Chain marks m.current)
    (hsuperclass : Option.Rel (Class.Alike P L) superclass superclass')
    (declaration declaration' : Stmt) :
    ∃ L' : Layout, L <+: L' ∧
      Machines P L' (m.addSuper declaration superclass) (m'.addSuper declaration' superclass') ∧
      m'.memberFrame superclass' = m.memberFrame superclass ∧
      L'.Chain (superMarks superclass.isSome ++ marks) (m.memberFrame superclass) := by
  cases hsuperclass with
  | none => exact ⟨L, List.prefix_refl L, hmachines, hmachines.current, hchain⟩
  | @some definition definition' hdefinition =>
      have hvalue : Option.Rel (Value.Alike P L) (some (.classValue definition))
          (some (.classValue definition')) := .some (.classValue hdefinition)
      have hbound := Table.Alike.insert (g := P.rename false) Table.alike_empty
        (Table.distinguishes_of_injective (P.injective false) _ "super") rfl hvalue
      rw [P.rename_super] at hbound
      refine ⟨L ++ [(false, some m.current)], List.prefix_append .., ?_, ?_, ?_⟩
      · have hadded := hmachines.addFrame false (some m.current) hbound
          (.superclass declaration definition) (.superclass declaration' definition')
        rw [Machine.addSuper, Machine.addSuper, hmachines.current]
        exact hadded
      · exact hmachines.frames.size.2.trans hmachines.frames.size.1.symm
      · show Layout.Chain _ _ m.frames.size
        rw [hmachines.frames.size.1]
        exact chain_added hchain

/-- The class that both declarations make, with its members in the frame for them. -/
theorem alike_newClass (hmachines : Machines P L m m')
    (hsuperclass : Option.Rel (Class.Alike P L') superclass superclass')
    (hframe' : m'.memberFrame superclass' = m.memberFrame superclass)
    (hframe : L'.Chain inner (m.memberFrame superclass)) (hlexeme : name'.lexeme = name.lexeme)
    (hbody : ClassBody.Alike P.trees outside (false :: inner) body body')
    (hused : used.Alike P L' used') :
    (m.newClass name body superclass used).Alike P L'
      (m'.newClass name' body' superclass' used') := by
  cases hbody with
  | @intro _ _ _ _ _ _ classMethods _ _ hmethods hclassMethods =>
      have hclassTable := alike_withMethods hframe (fun _ => false) hclassMethods m.nextId
        hused.classMethods
      have htable := alike_withMethods hframe isInitializerName hmethods
        (m.nextId + classMethods.length) hused.methods
      simp only [Machine.newClass, Machine.declared, Machine.firstId, hframe', hlexeme,
        hmachines.fields.1, hmachines.nextId, hclassMethods.length_eq]
      cases hsuperclass with
      | none => exact .root htable hclassTable
      | some hparent => exact .derived hparent htable hclassTable

theorem agree_finishClass (hname : P.trees.named (innermost marks) name name')
    (hbody : ClassBody.Alike P.trees outside
      (false :: (superMarks superclass.isSome ++ marks)) body body')
    (hsuperclass : Option.Rel (Class.Alike P L) superclass superclass')
    (hused : used.Alike P L used') :
    Agree P L marks (finishClass name parent body superclass used)
      (finishClass name' parent' body' superclass' used') (Flow.Alike P) := by
  intro m m' hmachines hchain
  obtain ⟨hlexeme, hkept, -⟩ := P.of_named hname
  obtain ⟨L', hle, hinside, hframe', hframe⟩ := machines_addSuper hmachines hchain hsuperclass
    (.classDecl name parent body) (.classDecl name' parent' body')
  have hdefinition := alike_newClass hmachines (rel_weaken hsuperclass fun h => h.mono hle)
    hframe' hframe hlexeme hbody ⟨hused.methods.mono hle, hused.classMethods.mono hle⟩
  obtain ⟨around, hentry⟩ := (hchain.mono hle).entry
  have hfinished : Machines P L' (m.addClass name parent body superclass used)
      (m'.addClass name' parent' body' superclass' used') := by
    refine { hinside with
      frames := ?_, fields := hmachines.addHolder.fields_mono hle, nextId := ?_ }
    · have hbound := hinside.frames.bind hentry name.lexeme (.some (.classValue hdefinition))
      simp only [Machine.addClass, FrameStore.define, hlexeme, hmachines.current]
      rw [hkept] at hbound
      exact hbound
    · cases hbody with
      | intro _ hmethods hclassMethods =>
          simp only [Machine.addClass, hmachines.nextId, hmethods.length_eq,
            hclassMethods.length_eq]
  rw [finishClass_eq, finishClass_eq]
  refine .ok hle hfinished ?_ .normal
  show L'.Chain marks (m.addSuper _ superclass).current
  rw [addSuper_current]
  exact hchain.mono hle

theorem agree_declareClass (hself : self.Agree P self')
    (hname : P.trees.named (innermost marks) name name')
    (hparent : Expr.Alike? P.trees marks parent parent')
    (hbody : ClassBody.Alike P.trees marks
      (false :: (superMarks parent.isSome ++ marks)) body body') :
    Agree P L marks (declareClass self name parent body) (declareClass self' name' parent' body')
      (Flow.Alike P) := by
  rw [declareClass_eq, declareClass_eq]
  apply (agree_evaluateSuperclass hself (P.of_named hname).2.2 hparent).bind
  rintro L₁ superclass superclass' _ ⟨hsome, hsuperclass⟩
  -- Traits are looked up around the class, before it has frames of its own.
  have htraits : Expr.AlikeAll P.trees marks body.traits body'.traits := by
    cases hbody with
    | intro htraits _ _ => exact htraits
  apply (agree_useTraits hself htraits Members.alike_empty).bind
  intro L₂ used used' hle₂ hused
  rw [← hsome] at hbody
  exact agree_finishClass hname hbody (rel_weaken hsuperclass fun h => h.mono hle₂) hused

end DeclaringClass

/-! ### Properties -/

theorem agree_bindMethod (hself : self.Agree P self') {method method' : Closure}
    (hmethod : method.Alike P L [false] method') {receiver receiver' : Value}
    (hreceiver : receiver.Alike P L receiver') :
    Agree P L marks (bindMethod self method receiver) (bindMethod self' method' receiver')
      (Value.Alike P) := by
  apply (agree_bindReceiver hmethod hreceiver).bind
  intro L' bound bound' _ hbound
  rw [hbound.isGetter_eq]
  split
  · exact agree_callClosure hself hbound .nil
  · exact agree_pure (.function hbound)

theorem agree_getProperty (hself : self.Agree P self') {object object' : Value}
    (hobject : object.Alike P L object') {name name' : Token} (hname : P.trees.token name name') :
    Agree P L marks (getProperty self object name) (getProperty self' object' name')
      (Value.Alike P) := by
  obtain ⟨-, hlexeme, hline⟩ := P.of_token hname
  unfold getProperty
  rw [hobject.holder?_eq, hlexeme]
  split
  · exact agree_raiseAt hline (.same _)
  · apply (agree_field? _ name.lexeme).bind
    intro L' found found' hle hfound
    cases hfound with
    | some hvalue => exact agree_pure hvalue
    | none =>
        rcases rel_cases ((hobject.mono hle).findMethod name.lexeme) with
          ⟨hleft, hright⟩ | ⟨method, method', hleft, hright, hmethod⟩
        · dsimp only
          rw [hleft, hright]
          exact agree_raiseAt hline (.same _)
        · dsimp only
          rw [hleft, hright]
          exact agree_bindMethod hself hmethod (hobject.mono hle)

theorem agree_readSuperclass (distance : Nat) :
    Agree P L marks (readSuperclass distance) (readSuperclass distance)
      (fun L' => Class.Alike P L') := by
  apply agree_currentFrame.bind
  rintro L₁ _ frame _ ⟨rfl, hframe⟩
  apply (agree_readAt hframe distance P.rename_super P.said_super).bind
  intro L₂ found found' _ hfound
  cases hfound with
  | ok hvalue => cases hvalue with
    | classValue hdefinition => exact agree_pure hdefinition
    | _ => exact agree_fault _
  | error herror => cases herror with
    | undefined hsaid => exact agree_fault _
    | uninitialized hsaid => exact agree_fault _
    | chainEnded hops distance => exact agree_fault _

theorem agree_readReceiver (distance : Nat) {keyword keyword' : Token}
    (hline : P.lines keyword.line keyword'.line) :
    Agree P L marks (readReceiver distance keyword) (readReceiver distance keyword')
      (Value.Alike P) := by
  apply agree_currentFrame.bind
  rintro L₁ _ frame _ ⟨rfl, hframe⟩
  apply (agree_readAt hframe _ P.rename_this P.said_this).bind
  intro L₂ found found' _ hfound
  cases hfound with
  | ok hvalue => exact agree_pure hvalue
  | error herror => exact agree_throw (herror.stop (.some hline))

theorem superMethod_alike {superclass superclass' : Class}
    (hsuperclass : superclass.Alike P L superclass') {receiver receiver' : Value}
    (hreceiver : receiver.Alike P L receiver') (name : String) :
    Option.Rel (Closure.Alike P L [false]) (superMethod superclass receiver name)
      (superMethod superclass' receiver' name) := by
  cases hreceiver with
  | classValue _ => exact hsuperclass.findClassMethod name
  | _ => exact hsuperclass.findMethod name

theorem agree_getSuper (hself : self.Agree P self') {id id' : Nat}
    {keyword keyword' method method' : Token}
    (hkeyword : P.trees.receiver marks id keyword id' keyword')
    (hmethod : P.trees.token method method') :
    Agree P L marks (getSuper self id keyword method) (getSuper self' id' keyword' method')
      (Value.Alike P) := by
  obtain ⟨hid, -, hline, -⟩ := P.of_receiver hkeyword
  obtain ⟨-, hlexeme, hmethodLine⟩ := P.of_token hmethod
  apply (agree_distance? hid).bind
  rintro L₁ found found' _ ⟨rfl, rfl⟩
  cases P.left id with
  | none => exact agree_fault _
  | some distance =>
      apply (agree_readSuperclass distance).bind
      intro L₂ superclass superclass' _ hsuperclass
      apply (agree_readReceiver distance hline).bind
      intro L₃ receiver receiver' hle₃ hreceiver
      rw [hlexeme]
      rcases rel_cases (superMethod_alike (hsuperclass.mono hle₃) hreceiver method.lexeme) with
        ⟨hleft, hright⟩ | ⟨found, found', hleft, hright, hfound⟩
      · rw [hleft, hright]
        exact agree_raiseAt hmethodLine (.same _)
      · rw [hleft, hright]
        exact agree_bindMethod hself hfound hreceiver

/-! ### One step -/

theorem agree_applied {operator operator' : Token} (hoperator : P.trees.token operator operator')
    {result result' : Operator.Result} (h : Operator.Alike P L result result') :
    Agree P L marks (applied operator result) (applied operator' result') (Value.Alike P) := by
  cases h with
  | ok hvalue => exact agree_pure hvalue
  | error cause => exact agree_raiseAt (P.of_token hoperator).2.2 (.same cause)

theorem agree_evaluateAll (hself : self.Agree P self') {es es' : List Expr}
    (h : Expr.AlikeAll P.trees marks es es') :
    Agree P L marks (evaluateAll self es) (evaluateAll self' es')
      (fun L' => List.Forall₂ (Value.Alike P L')) := by
  induction es generalizing es' L with
  | nil =>
      cases h
      exact agree_pure .nil
  | cons e es ih =>
      cases h with
      | cons he hrest =>
          apply (hself.evaluate he).bind
          intro L₁ v v' _ hv
          apply (ih hrest).bind
          intro L₂ vs vs' hle₂ hvs
          exact agree_pure (.cons (hv.mono hle₂) hvs)

theorem agree_evaluate? (hself : self.Agree P self') {e e' : Option Expr}
    (h : Expr.Alike? P.trees marks e e') :
    Agree P L marks (evaluate? self e) (evaluate? self' e')
      (fun L' => Option.Rel (Value.Alike P L')) := by
  cases h with
  | none => exact agree_pure .none
  | some he => exact (hself.evaluate he).bind fun _ hv => agree_pure (.some hv)

theorem agree_introduce {name name' : Token} (hname : P.trees.declared (innermost marks) name name')
    {value value' : Option Value} (hvalue : Option.Rel (Value.Alike P L) value value') :
    Agree P L marks (introduce name value) (introduce name' value') (fun _ _ _ => True) := by
  cases hvalue with
  | none =>
      apply agree_currentFrame.bind
      rintro L' _ frame _ ⟨rfl, hframe⟩
      exact agree_declare hframe (P.of_declared hname)
  | some hvalue =>
      apply agree_currentFrame.bind
      rintro L' _ frame hle ⟨rfl, hframe⟩
      exact agree_define hframe (P.of_declared hname) (hvalue.mono hle)

theorem agree_declareFunction {decl decl' : FunctionDecl}
    (hname : Option.Rel (P.trees.named (innermost marks)) decl.name decl'.name)
    (hdecl : FunctionDecl.Alike P.trees marks decl decl') :
    Agree P L marks (declareFunction decl) (declareFunction decl') (Flow.Alike P) := by
  apply agree_currentFrame.bind
  rintro L₁ _ frame _ ⟨rfl, hframe⟩
  apply (agree_makeClosure [] hframe hdecl false).bind
  intro L₂ closure closure' hle₂ hclosure
  rcases rel_cases hname with ⟨hleft, hright⟩ | ⟨t, t', hleft, hright, ht⟩
  · rw [hleft, hright]
    exact agree_pure .normal
  · rw [hleft, hright]
    obtain ⟨hlexeme, hkept, -⟩ := P.of_named ht
    apply (agree_define (hframe.mono hle₂) (hlexeme.trans hkept.symm) (.function hclosure)).bind
    rintro L₃ _ _ _ -
    exact agree_pure .normal

theorem agree_evaluateStep (hself : self.Agree P self') {e e' : Expr}
    (h : Expr.Alike P.trees marks e e') :
    Agree P L marks (evaluateStep self e) (evaluateStep self' e') (Value.Alike P) := by
  cases h with
  | literal => exact agree_pure (Value.alike_ofLiteral _)
  | group h => exact hself.evaluate h
  | unary hoperator hright =>
      apply (hself.evaluate hright).bind
      intro L₁ v v' _ hv
      rw [(P.of_token hoperator).1]
      exact agree_applied hoperator (Operator.alike_unary _ hv)
  | binary hleft hoperator hright =>
      apply (hself.evaluate hleft).bind
      intro L₁ a a' _ ha
      apply (hself.evaluate hright).bind
      intro L₂ b b' hle₂ hb
      rw [(P.of_token hoperator).1]
      exact agree_applied hoperator (Operator.alike_binary _ (ha.mono hle₂) hb)
  | logical hleft hoperator hright =>
      apply (hself.evaluate hleft).bind
      intro L₁ v v' _ hv
      rw [(P.of_token hoperator).1, Operator.isDecided_eq _ hv]
      split
      · exact agree_pure hv
      · exact hself.evaluate hright
  | conditional ha hb hc =>
      apply (hself.evaluate ha).bind
      intro L₁ v v' _ hv
      rw [hv.isTruthy_eq]
      split
      · exact hself.evaluate hb
      · exact hself.evaluate hc
  | «variable» h => exact agree_readVariable (P.of_occurrence h)
  | assign h hvalue =>
      apply (hself.evaluate hvalue).bind
      intro L₁ v v' _ hv
      apply (agree_writeVariable (P.of_occurrence h) hv).bind
      rintro L₂ _ _ hle₂ -
      exact agree_pure (hv.mono hle₂)
  | call hcallee hparen harguments =>
      apply (hself.evaluate hcallee).bind
      intro L₁ callee callee' _ hcallee
      apply (agree_evaluateAll hself harguments).bind
      intro L₂ arguments arguments' hle₂ harguments
      exact hself.invoke (hcallee.mono hle₂) (P.of_token hparen).2.2 harguments
  | function h =>
      apply agree_currentFrame.bind
      rintro L₁ _ frame _ ⟨rfl, hframe⟩
      exact (agree_makeClosure [] hframe h false).bind fun _ hclosure =>
        agree_pure (.function hclosure)
  | get hobject hname =>
      apply (hself.evaluate hobject).bind
      intro L₁ object object' _ hobject
      exact agree_getProperty hself hobject hname
  | set hobject hname hvalue =>
      obtain ⟨-, hlexeme, hline⟩ := P.of_token hname
      apply (hself.evaluate hobject).bind
      intro L₁ object object' _ hobject
      rw [hobject.holder?_eq]
      split
      · exact agree_raiseAt hline (.same _)
      · apply (hself.evaluate hvalue).bind
        intro L₂ v v' _ hv
        rw [hlexeme]
        apply (agree_setField _ _ hv).bind
        rintro L₃ _ _ hle₃ -
        exact agree_pure (hv.mono hle₃)
  | this h => exact agree_readVariable (P.of_receiver h)
  | super h hmethod => exact agree_getSuper hself h hmethod

theorem agreeOn_map (hself : self.Agree P self') {e e' : Option Expr}
    (h : Expr.Alike? P.trees marks e e') :
    AgreeOn P marks (e.map self.evaluate) (e'.map self'.evaluate) := by
  cases h with
  | none => exact .none
  | some he => exact .some (hself.evaluate he)

theorem agree_enterLoop (hself : self.Agree P self') {stmt stmt' : Option Stmt}
    (h : Stmt.Alike? P.trees marks stmt stmt') :
    Agree P L marks (enterLoop self stmt) (enterLoop self' stmt') (fun _ _ _ => True) := by
  cases h with
  | none => exact agree_pure trivial
  | some hstmt => exact (hself.execute hstmt).bind fun _ _ => agree_pure trivial

theorem agree_executeStep (hself : self.Agree P self') (rounds : Nat) {stmt stmt' : Stmt}
    (h : Stmt.Alike P.trees marks stmt stmt') :
    Agree P L marks (executeStep self rounds stmt) (executeStep self' rounds stmt')
      (Flow.Alike P) := by
  cases h with
  | expression h => exact (hself.evaluate h).bind fun _ _ => agree_pure .normal
  | print h =>
      apply (hself.evaluate h).bind
      intro L₁ v v' _ hv
      rw [hv.display_eq]
      exact (agree_write _).bind fun _ _ => agree_pure .normal
  | «variable» hname hinitial =>
      apply (agree_evaluate? hself hinitial).bind
      intro L₁ value value' _ hvalue
      exact (agree_introduce hname hvalue).bind fun _ _ => agree_pure .normal
  | block mark h =>
      apply agree_currentFrame.bind
      rintro L₁ _ around _ ⟨rfl, haround⟩
      apply (agree_newFrame mark _ _ haround).bind
      rintro L₂ _ frame _ ⟨rfl, hframe⟩
      exact hself.executeBlock h hframe
  | ifElse hcondition hthen helse =>
      apply (hself.evaluate hcondition).bind
      intro L₁ v v' _ hv
      rw [hv.isTruthy_eq]
      split
      · exact hself.execute hthen
      · cases helse with
        | none => exact agree_pure .normal
        | some helse => exact hself.execute helse
  | whileLoop hcondition hbody =>
    exact agree_whileLoop (hself.evaluate hcondition) (hself.execute hbody) rounds
  | forLoop mark hinitial hcondition hincrement hbody =>
      apply agree_currentFrame.bind
      rintro L₁ _ around _ ⟨rfl, haround⟩
      apply (agree_newFrame mark _ _ haround).bind
      rintro L₂ _ frame _ ⟨rfl, hframe⟩
      apply Agree.inFrame _ hframe
      apply (agree_enterLoop hself hinitial).bind
      rintro L₃ _ _ _ -
      exact agree_forLoop (agreeOn_map hself hcondition) (agreeOn_map hself hincrement)
        (hself.execute hbody) rounds
  | @jump _ _ _ kind _ => cases kind with
    | breakLoop => exact agree_pure .breaking
    | continueLoop => exact agree_pure .continuing
  | function hname h => exact agree_declareFunction hname h
  | returnValue _ hvalue =>
      apply (agree_evaluate? hself hvalue).bind
      intro L₁ value value' _ hvalue
      cases hvalue with
      | none => exact agree_pure (.returning .nil)
      | some hvalue => exact agree_pure (.returning hvalue)
  | classDecl hname hbody => exact agree_declareClass hself hname .none hbody
  | subclassDecl hname hparent hbody => exact agree_declareClass hself hname (.some hparent) hbody
  | traitDecl hname hbody => exact agree_declareTrait hself hname hbody

/-! ### Repeating the step -/

theorem Evaluators.agree_of {evaluate evaluate' : Expr → Eval Value}
    {execute execute' : Stmt → Eval Flow} {invoke invoke' : Value → Nat → List Value → Eval Value}
    (hevaluate : ∀ {L marks e e'}, Expr.Alike P.trees marks e e' →
      Eval.Agree P L marks (evaluate e) (evaluate' e') (Value.Alike P))
    (hexecute : ∀ {L marks stmt stmt'}, Stmt.Alike P.trees marks stmt stmt' →
      Eval.Agree P L marks (execute stmt) (execute' stmt') (Flow.Alike P))
    (hinvoke : ∀ {L marks callee callee' line line' arguments arguments'},
      callee.Alike P L callee' → P.lines line line' →
      List.Forall₂ (Value.Alike P L) arguments arguments' →
      Eval.Agree P L marks (invoke callee line arguments) (invoke' callee' line' arguments')
      (Value.Alike P)) :
    (Evaluators.of evaluate execute invoke).Agree P (.of evaluate' execute' invoke') where
  evaluate := hevaluate
  execute := hexecute
  executeBlock h hframe := Agree.inFrame (agree_executeAll hexecute h) hframe
  invoke := hinvoke

theorem agree_evaluators (fuel : Nat) : (evaluators fuel).Agree P (evaluators fuel) := by
  induction fuel with
  | zero =>
      apply Evaluators.agree_of
      · intro L marks e e' _
        rw [evaluate, evaluate]
        exact agree_outOfFuel
      · intro L marks stmt stmt' _
        rw [execute, execute]
        exact agree_outOfFuel
      · intro L marks callee callee' line line' arguments arguments' _ _ _
        rw [invoke, invoke]
        exact agree_outOfFuel
  | succ fuel ih =>
      apply Evaluators.agree_of
      · intro L marks e e' h
        rw [evaluate, evaluate]
        exact agree_evaluateStep ih h
      · intro L marks stmt stmt' h
        rw [execute, execute]
        exact agree_executeStep ih fuel h
      · intro L marks callee callee' line line' arguments arguments' hcallee hline harguments
        rw [invoke, invoke]
        exact agree_invokeStep ih hcallee hline harguments

/-! ### Programs -/

theorem agree_interpretFrom (hself : self.Agree P self') {statements statements' : List Stmt}
    (h : Stmt.AlikeAll P.trees marks statements statements') :
    Agree P L marks (interpretFrom self statements) (interpretFrom self' statements')
      (fun _ _ _ => True) := by
  induction statements generalizing statements' L with
  | nil =>
      cases h
      exact agree_pure trivial
  | cons stmt rest ih =>
      cases h with
      | cons hstmt hrest => exact (hself.execute hstmt).bind fun _ _ => ih hrest

end Eval
end TraitScript
