import TraitScript.Proofs.Account.Holds
import TraitScript.Proofs.Account.Session
import TraitScript.Proofs.Method.Provenance

/-!
# Where methods come from

At every moment of a session every class was made by executing a declaration, of which the machine
has a record; so were its superclasses, which are older, and the traits that were used for any of
them. Looking a method up finds what the nearest of these declarations provides: instance methods
along the superclasses, class methods along their metaclasses. This does not depend on the names
under which classes and traits are known, which may have been declared again since.
-/

namespace TraitScript

open Eval

/-- The classes and traits in a value are recorded. -/
def Value.Recorded (m : Machine) : Value → Prop
  | .classValue definition => m.Records (.classValue definition)
  | .object inst => m.Records (.classValue inst.definingClass)
  | .traitValue definition => m.Records (.traitValue definition)
  | .nil | .bool _ | .number _ | .string _ | .function _ | .native _ => True

theorem Value.Recorded.mono {m m' : Machine} {v : Value} (h : v.Recorded m)
    (hle : m.provenances <+: m'.provenances) : v.Recorded m' := by
  cases v with
  | classValue _ | object _ | traitValue _ => exact Machine.Records.mono h hle
  | nil | bool _ | number _ | string _ | function _ | native _ => trivial

/-- A machine all of whose classes and traits are recorded. -/
structure Machine.Recorded (m : Machine) : Prop where
  lineage : m.Lineage
  values : ∀ {v}, m.Holds v → v.Recorded m
  natives : ∀ native ∈ m.natives, native.Honest

namespace Account

/-- An account of the declarations that classes and traits were made by. -/
def records : Account where
  Known := Machine
  le m m' := m.provenances <+: m'.provenances
  fits k m := k = m ∧ m.Recorded
  admits k v := v.Recorded k
  scope _ _ := True
  receives _ _ _ := True

namespace records

variable {m m' : Machine} {P : Machine → Prop} (hm : m.Recorded)

include hm

theorem later (hle : m.provenances <+: m'.provenances) (hlineage : m'.Lineage)
    (hnatives : m'.natives = m.natives) (hvalues : ∀ {v}, m'.Holds v → m.Holds v ∨ v.Recorded m')
    (hP : P m') : records.Later m m' P := by
  refine ⟨m', hle, ⟨rfl, hlineage, fun hv => ?_, hnatives ▸ hm.natives⟩, hP⟩
  exact (hvalues hv).elim (fun hold => (hm.values hold).mono hle) id

/-- Nothing is recorded but by declarations. -/
theorem later_unrecorded (hprovenances : m'.provenances = m.provenances)
    (hfields : m.fields.size ≤ m'.fields.size) (hnextId : m.nextId ≤ m'.nextId)
    (hnatives : m'.natives = m.natives)
    (hvalues : ∀ {v}, m'.Holds v → m.Holds v ∨ v.Recorded m') (hP : P m') : records.Later m m' P :=
  later hm (hprovenances ▸ List.prefix_refl _) (hm.lineage.grow hprovenances hfields hnextId)
    hnatives hvalues hP

/-- Where only frames change. -/
theorem later_frames (hprovenances : m'.provenances = m.provenances)
    (hfields : m'.fields = m.fields) (hnextId : m'.nextId = m.nextId)
    (hnatives : m'.natives = m.natives) (hvalues : ∀ {v}, m'.Holds v → m.Holds v ∨ v.Recorded m')
    (hP : P m') : records.Later m m' P :=
  later_unrecorded hm hprovenances (Nat.le_of_eq (by rw [hfields])) (Nat.le_of_eq hnextId.symm)
    hnatives hvalues hP

end records

theorem lawful_records : records.Lawful where
  refl m := List.prefix_refl m.provenances
  trans h h' := h.trans h'
  admits_mono hle h := h.mono hle
  scope_mono _ _ := trivial
  plain {_ v} h := by
    cases v with
    | nil | bool _ | number _ | string _ | function _ | native _ => trivial
    | classValue _ | object _ | traitValue _ => exact h.elim
  native := trivial
  slots := by
    rintro k m frame name v ⟨rfl, hm⟩ h
    exact hm.values (.slot h)
  fields := by
    rintro k m name v holder table ⟨rfl, hm⟩ htable h
    exact hm.values (.field htable h)
  natives hfits native hnative := .inl (hfits.2.natives native hnative)
  current _ := trivial
  globals _ := trivial
  enter := by
    rintro k m frame ⟨rfl, hm⟩ -
    exact records.later_frames hm rfl rfl rfl rfl (fun h => .inl (h.congr rfl rfl)) trivial
  aside := by
    rintro k m output world distances ⟨rfl, hm⟩
    exact records.later_frames hm rfl rfl rfl rfl (fun h => .inl (h.congr rfl rfl)) trivial
  bind := by
    rintro k m frame name value ⟨rfl, hm⟩ hvalue
    exact records.later_frames hm rfl rfl rfl rfl
      (fun h => h.of_bind.imp_right fun hv => hvalue _ hv) trivial
  setField := by
    rintro k m holder name v ⟨rfl, hm⟩ hv
    have hsize : (k.fields.modify holder (·.insert name v)).size = k.fields.size :=
      Array.size_modify
    refine records.later_unrecorded hm rfl (Nat.le_of_eq hsize.symm) (Nat.le_refl _) rfl
      (fun h => h.of_setField.imp_right fun heq => ?_) trivial
    rw [heq]
    exact hv
  statement := by
    rintro k m origin around ⟨rfl, hm⟩ - -
    exact records.later_frames hm rfl rfl rfl rfl (fun h => .inl h.of_emptyFrame) trivial
  call := by
    rintro k m closure ⟨rfl, hm⟩ -
    exact records.later_frames hm rfl rfl rfl rfl (fun h => .inl h.of_emptyFrame) trivial
  nextRound := by
    rintro k m ⟨rfl, hm⟩
    exact records.later_frames hm rfl rfl rfl rfl (fun h => .inl h.of_nextRound) trivial
  function := by
    rintro k m decl ⟨rfl, hm⟩
    exact records.later_unrecorded hm rfl (Nat.le_refl _) (Nat.le_succ _) rfl
      (fun h => .inl (h.congr rfl rfl)) trivial
  inst := by
    rintro k m definition ⟨rfl, hm⟩ hclass
    have hsize : (k.fields.push ∅).size = k.fields.size + 1 := Array.size_push _
    refine records.later_unrecorded hm rfl ?_ (Nat.le_refl _) rfl (fun h => .inl h.of_newHolder)
      hclass
    rw [hsize]
    exact Nat.le_succ _
  finds _ _ := trivial
  receiver := by
    rintro k m v method ⟨rfl, hm⟩ hv -
    refine records.later_unrecorded hm rfl (Nat.le_refl _) (Nat.le_succ _) rfl
      (fun h => h.of_addReceiver.imp_right fun heq => ?_) trivial
    rw [heq]
    exact hv

/-! ### Declarations -/

namespace records

variable {m : Machine} (hm : m.Recorded) {used : List Trait} {members : Members}
  (hgathers : Members.Gathers {} used members) (hused : ∀ t ∈ used, m.Records (.traitValue t))

include hm hgathers hused

/-- A new trait is the newest. -/
theorem later_addTrait (name : Token) (body : ClassBody) (hdistinct : members.Distinct) :
    records.Later m (m.addTrait name body members) fun _ => True := by
  obtain rfl : members.traits = used := hgathers.traits
  have hprovenances : (m.addTrait name body members).provenances =
      m.provenances ++ [m.traitProvenance name body members] := rfl
  have hle : m.provenances <+: (m.addTrait name body members).provenances := List.prefix_append ..
  have hnextId : m.nextId ≤ (m.newTrait name body members).id := by
    simp only [Machine.newTrait]
    omega
  have hlineage : (m.addTrait name body members).Lineage := by
    refine hm.lineage.concat hprovenances (Nat.le_refl _) (Nat.le_succ_of_le hnextId) ?_ ?_
    · refine .ofTrait hgathers hdistinct (fun t ht => ?_) (Nat.lt_succ_self _)
      exact ⟨(hused t ht).mono hle, hm.lineage.id_lt_trait (hused t ht)⟩
    · intro q hq
      cases hproduct : q.product with
      | traitValue t =>
          have hid := hm.lineage.id_lt_trait ⟨q, hq, hproduct⟩
          simp only [Machine.traitProvenance, Value.same, beq_eq_false_iff_ne]
          omega
      | _ => rfl
  refine later hm hle hlineage rfl (fun h => h.of_addTrait.imp_right fun heq => ?_) trivial
  rw [heq]
  exact Machine.Records.of_append hprovenances rfl

/-- A new class is the newest. -/
theorem later_addClass (name : Token) (parent : Option Expr) (body : ClassBody)
    {superclass : Option Class}
    (hsuperclass : ∀ definition, superclass = some definition →
      m.Records (.classValue definition)) :
    records.Later m (m.addClass name parent body superclass members) fun _ => True := by
  obtain rfl : members.traits = used := hgathers.traits
  have hprovenances : (m.addClass name parent body superclass members).provenances =
      m.provenances ++ [m.classProvenance name parent body superclass members] := rfl
  have hle : m.provenances <+: (m.addClass name parent body superclass members).provenances :=
    List.prefix_append ..
  have hsize : (m.addClass name parent body superclass members).fields.size = m.fields.size + 1 :=
    Array.size_push _
  have hlineage : (m.addClass name parent body superclass members).Lineage := by
    refine hm.lineage.concat hprovenances (hsize ▸ Nat.le_succ _) ?_ ?_ ?_
    · simp only [Machine.addClass]
      omega
    · refine .ofClass hgathers (fun t ht => (hused t ht).mono hle) (fun definition heq => ?_) ?_
      · have hrecords := hsuperclass definition heq
        exact ⟨hrecords.mono hle, hm.lineage.id_lt_class hrecords⟩
      · rw [hsize]
        exact Nat.lt_succ_self _
    · intro q hq
      cases hproduct : q.product with
      | classValue c =>
          have hid := hm.lineage.id_lt_class ⟨q, hq, hproduct⟩
          simp only [Machine.classProvenance, Machine.newClass, Value.same, beq_eq_false_iff_ne]
          omega
      | _ => rfl
  refine later hm hle hlineage ?_ (fun h => h.of_addClass.imp_right fun hnew => ?_) trivial
  · cases superclass <;> rfl
  · rcases hnew with ⟨definition, hdefinition, rfl⟩ | rfl
    · exact (hsuperclass definition hdefinition).mono hle
    · exact Machine.Records.of_append hprovenances rfl

end records

theorem handles_records (stop : Stop) : records.Handles {} stop := by
  refine handles_nothing lawful_records (fun _ _ => trivial) ?_ ?_
  · rintro fuel k m m' name body used members ⟨rfl, hm⟩ - hdeclares hused
    have hdistinct := distinct_of_useTraits hdeclares.uses Members.distinct_empty
    exact records.later_addTrait hm hdeclares.gathers hused name body hdistinct
  · rintro fuel k m m' name parent body superclass used members ⟨rfl, hm⟩ - hdeclares
      hsuperclass hused
    exact records.later_addClass hm hdeclares.gathers hused name parent body hsuperclass

end Account

/-! ### At every moment -/

/-- Whatever class a value is or belongs to answers, and if it is a trait, it is recorded. -/
def Value.Answers (m : Machine) : Value → Prop
  | .classValue definition => definition.Answers m
  | .object inst => inst.definingClass.Answers m
  | .traitValue definition => ∃ p, m.provenance? (.traitValue definition) = some p ∧
    p.product = .traitValue definition
  | .nil | .bool _ | .number _ | .string _ | .function _ | .native _ => True

/-- All values answer, and so do the traits that were used for any class or trait. -/
structure Machine.Answers (m : Machine) : Prop where
  values : ∀ v, m.Holds v → v.Answers m
  used : ∀ p ∈ m.provenances, ∀ t ∈ p.used, (Value.traitValue t).Answers m

theorem Value.Recorded.answers {m : Machine} (hm : m.Lineage) {v : Value} (h : v.Recorded m) :
    v.Answers m := by
  cases v with
  | classValue _ | object _ => exact hm.answers h
  | traitValue _ =>
      obtain ⟨p, -, hrecord, hproduct⟩ := hm.exists_provenance h
      exact ⟨p, hrecord, hproduct⟩
  | nil | bool _ | number _ | string _ | function _ | native _ => trivial

theorem Machine.Recorded.answers {m : Machine} (h : m.Recorded) : m.Answers where
  values _ hv := (h.values hv).answers h.lineage
  used _ hp t ht :=
    Value.Recorded.answers (v := .traitValue t) h.lineage (h.lineage.records_used hp ht)

/-- All values answer before and after whatever happens, and so do those that it yields. What was
recorded before stays recorded. -/
structure Eval.Result.Answers {α : Type} (yields : α → Value → Prop) (m : Machine)
    (result : Eval.Result α) : Prop where
  before : m.Answers
  after : result.machine.Answers
  recorded : m.provenances <+: result.machine.provenances
  yielded : ∀ a m' v, result = .ok a m' → yields a v → v.Answers m'

/-- At every evaluation, execution and call all values answer. -/
def lookupOversight : Oversight where
  evaluate _ m result := result.Answers (fun a v => a = v) m
  execute _ m result := result.Answers (fun flow v => flow = .returning v) m
  executeBlock _ _ m result := result.Answers (fun flow v => flow = .returning v) m
  executeTop _ m result := result.Answers (fun flow v => flow = .returning v) m
  invoke callee _ arguments m result := (∀ v ∈ callee :: arguments, v.Answers m) ∧
    result.Answers (fun a v => a = v) m

namespace Account

theorem answers_of_ends {α : Type} {k m : Machine} {Q : α → Machine → Machine → Prop}
    {yields : α → Value → Prop} {result : Eval.Result α} (hfits : records.fits k m)
    (hends : records.Ends True k m Q result)
    (hyields : ∀ {a v k' m'}, Q a k' m' → yields a v → records.admits k' v) :
    result.Answers yields m := by
  obtain ⟨rfl, hm⟩ := hfits
  cases result with
  | ok a m' =>
      obtain ⟨-, k', hle, ⟨rfl, hm'⟩, hQ⟩ := hends
      refine ⟨hm.answers, hm'.answers, hle, fun a' _ v heq hv => ?_⟩
      cases heq
      exact Value.Recorded.answers hm'.lineage (hyields hQ hv)
  | error stop m' =>
      obtain ⟨-, k', hle, ⟨rfl, hm'⟩, -⟩ := hends
      exact ⟨hm.answers, hm'.answers, hle, nofun⟩

theorem shows_lookupOversight : records.Shows {} lookupOversight where
  evaluate_assumed _ := trivial
  execute_assumed _ := trivial
  executeBlock_assumed _ := trivial
  executeTop_assumed _ := trivial
  evaluate _ hfits hends := answers_of_ends hfits hends fun hv heq => heq ▸ hv
  execute _ hfits hends := answers_of_ends hfits hends fun hflow heq => by
    rw [heq] at hflow
    exact hflow
  executeBlock _ hfits _ hends := answers_of_ends hfits hends fun hflow heq => by
    rw [heq] at hflow
    exact hflow
  executeTop _ hfits hends := answers_of_ends hfits hends fun hflow heq => by
    rw [heq] at hflow
    exact hflow
  invoke hfits hcallee harguments hends := by
    refine ⟨?_, answers_of_ends hfits hends fun hv heq => heq ▸ hv⟩
    obtain ⟨rfl, hm⟩ := hfits
    refine List.forall_mem_cons.2 ⟨hcallee.answers hm.lineage, fun v hv => ?_⟩
    exact (harguments v hv).answers hm.lineage
  binds _ _ _ := trivial

theorem records_fit_start {natives : List Native} (hnatives : ∀ native ∈ natives, native.Honest)
    (world : World) : ∃ k, records.fits k (Machine.start natives world) := by
  refine fits_start lawful_records (fun {k m native} hfits hnative => ?_) hnatives
    ⟨.bare world, rfl, ⟨by simp [Machine.bare], .nil⟩,
      fun hv => (Machine.not_holds_bare world _ hv).elim, by simp [Machine.bare]⟩
  obtain ⟨rfl, hm⟩ := hfits
  refine ⟨{ k with natives := k.natives.push native }, List.prefix_refl _,
    ⟨rfl, hm.lineage.grow rfl (Nat.le_refl _) (Nat.le_refl _), fun hv =>
      ?_, fun other hother => ?_⟩,
    trivial⟩
  · exact (hm.values (hv.congr rfl rfl)).mono (List.prefix_refl _)
  · rcases Array.mem_push.1 hother with hold | rfl
    · exact hm.natives other hold
    · exact hnative

end Account

namespace Session

open Account

/-- In a session of any programs, at every evaluation and call and at the end, every class and all
its superclasses are recorded with the declarations that made them, the metaclasses along the
superclasses form a chain of their own, and looking a method up finds what the nearest declaration
provides that has the name at all. What is recorded is the declaration that was executed: whatever
the machine, executing one records it with the class or trait that it makes, the traits that it
evaluated and, for a class, the superclass. -/
theorem lookup_finds_nearest_declaration (natives : List Native)
    (hnatives : ∀ native ∈ natives, native.Honest) (world : World) (requests : List Request)
    (fuel : Nat) :
    (∀ stop, sequence (serve (overseenEvaluators lookupOversight stop fuel)) requests
          (start natives world) =
        sequence (serve (evaluators fuel)) requests (start natives world)) ∧
      (sequence (serve (evaluators fuel)) requests (start natives world)).2.machine.Answers ∧
      ∀ (n : Nat) (stmt : Stmt) (m m' : Machine) (flow : Flow),
        Eval.execute (n + 1) stmt m = .ok flow m' → m.Declares (evaluators n) stmt m' := by
  have hstart := records_fit_start hnatives world
  have hserve := fun stop => serve_overseen lawful_records shows_lookupOversight
    (handles_records stop) fuel requests (s := start natives world) hstart
  simp only [watchedEvaluators_nothing] at hserve
  refine ⟨fun stop => (hserve stop).1, ?_, fun n stmt m m' flow => declares_execute⟩
  obtain ⟨-, k, hfits⟩ := hserve .outOfFuel
  exact hfits.2.answers

/-- A subclass that finds a method of a trait used by a trait, and a class method of its
superclass. -/
def inheritingRequests : List Request :=
  [.text (.program (Utf8.encode
      ("trait T \x7b m() \x7b return true; \x7d \x7d trait U \x7b use T; \x7d " ++
        "class A \x7b use U; class k() \x7b return false; \x7d \x7d class B < A \x7b\x7d"))),
    .text (.line (Utf8.encode "B().m()")), .text (.line (Utf8.encode "B.k()"))]

theorem lookup_finds_nearest_declaration_inherited :
    (∀ native ∈ Native.standard, native.Honest) ∧
      (sequence (serve (evaluators 20)) inheritingRequests (start Native.standard {})).1.map
          (·.output) = ["", "true\n", "false\n"] ∧
      (sequence (serve (evaluators 20)) inheritingRequests
          (start Native.standard {})).2.machine.provenances.map
          (fun p => (p.product.display, p.used.map (·.name))) =
        [("<trait T>", []), ("<trait U>", ["T"]), ("<class A>", ["U"]), ("<class B>", [])] ∧
      (∀ stop, sequence (serve (overseenEvaluators lookupOversight stop 20)) inheritingRequests
          (start Native.standard {}) =
        sequence (serve (evaluators 20)) inheritingRequests (start Native.standard {})) ∧
      (sequence (serve (evaluators 20)) inheritingRequests
        (start Native.standard {})).2.machine.Answers := by
  obtain ⟨hoverseen, hanswers, -⟩ :=
    lookup_finds_nearest_declaration Native.standard Native.honest_standard {} inheritingRequests 20
  exact ⟨Native.honest_standard, by decide +kernel, by decide +kernel, hoverseen, hanswers⟩

end Session
end TraitScript
