import TraitScript.Proofs.Account.Run
import TraitScript.Proofs.Method.Declare

/-!
# Declarations that are accounted for

A declaration evaluates its superclass and the traits it uses, which may run any code, and then adds
one class or trait to the machine. An account has to deal with the addition alone; it is told how
the declaration got there.
-/

namespace TraitScript.Account

open Eval

variable {I : Account} {stays : Prop} {k : I.Known} {m : Machine} {self watching : Evaluators}
  {α : Type} (hI : I.Lawful)

include hI

/-- A computation that stops at once where it started. -/
theorem keeps_of_error {Q : α → I.Known → Machine → Prop} {x : Eval α} {stop : Stop}
    (hx : x m = .error stop m) : I.Keeps stays k x x Q m := by
  intro hfits
  rw [hx]
  exact ⟨rfl, fun _ => rfl, k, hI.refl k, hfits, trivial⟩

/-- Identities may be given away. -/
theorem later_nextId (hfits : I.fits k m) (count : Nat) :
    I.Later k { m with nextId := m.nextId + count } fun _ => True := by
  induction count with
  | zero => exact ⟨k, hI.refl k, hfits, trivial⟩
  | succ count ih =>
      obtain ⟨k₁, hle₁, hfits₁, -⟩ := ih
      obtain ⟨k₂, hle₂, hfits₂, -⟩ := hI.function default hfits₁
      exact ⟨k₂, hI.trans hle₁ hle₂, hfits₂, trivial⟩

/-! ### What a declaration evaluates -/

theorem keeps_evaluateTrait (hself : I.Related self watching) (expr : Expr) :
    I.Keeps True k (evaluateTrait self expr) (evaluateTrait watching expr)
      (fun used k' _ => I.admits k' (.traitValue used)) m := by
  refine hself.evaluate.bind hI fun value k' m' _ _ hvalue => ?_
  cases value with
  | traitValue definition => exact keeps_pure hI definition hvalue
  | nil | bool _ | number _ | string _ | function _ | native _ | classValue _ | object _ =>
      dsimp only
      split <;> exact keeps_raise hI _ _

theorem keeps_evaluateSuperclass (hself : I.Related self watching) (name : Token)
    (parent : Option Expr) :
    I.Keeps True k (evaluateSuperclass self name parent) (evaluateSuperclass watching name parent)
      (fun found k' _ => ∀ definition, found = some definition →
          I.admits k' (.classValue definition)) m := by
  cases parent with
  | none => exact keeps_pure hI none (by simp)
  | some expr =>
      refine hself.evaluate.bind hI fun value k' m' _ _ hvalue => ?_
      cases value with
      | classValue definition =>
        exact keeps_pure hI (some definition) fun _ hother => Option.some.inj hother ▸ hvalue
      | nil | bool _ | number _ | string _ | function _ | native _ | object _ | traitValue _ =>
        exact keeps_raise hI _ _

theorem keeps_mergeTable (line : Option Nat) (conflict : String → RuntimeError.Cause)
    (used : Trait) (ofClass : Bool) (theirs table : MethodTable) :
    I.Keeps True k (mergeTable line conflict used ofClass theirs table)
      (mergeTable line conflict used ofClass theirs table) (fun _ _ _ => True) m := by
  rcases mergeTable_cases line conflict used ofClass theirs table m with
    ⟨joined, hok, -⟩ | ⟨stop, herror⟩
  · exact keeps_of_read hI joined hok fun _ => trivial
  · exact keeps_of_error hI herror

theorem keeps_useTraits (hself : I.Related self watching) (exprs : List Expr) (before : Members)
    (hbefore : ∀ t ∈ before.traits, I.admits k (.traitValue t)) :
    I.Keeps True k (useTraits self exprs before) (useTraits watching exprs before)
      (fun after k' _ => ∀ t ∈ after.traits, I.admits k' (.traitValue t)) m := by
  induction exprs generalizing k m before with
  | nil => exact keeps_pure hI before hbefore
  | cons expr rest ih =>
      refine (keeps_evaluateTrait hI hself expr).bind hI fun used k₁ m₁ hle₁ _ hused => ?_
      refine (keeps_mergeTable hI _ _ used false used.methods before.methods).bind hI
        fun methods k₂ m₂ hle₂ _ _ => ?_
      refine (keeps_mergeTable hI _ _ used true used.classMethods before.classMethods).bind hI
        fun classMethods k₃ m₃ hle₃ _ _ => ?_
      have hle := hI.trans hle₂ hle₃
      exact ih _ (List.forall_mem_append.2
        ⟨fun t ht => hI.admits_mono (hI.trans hle₁ hle) (hbefore t ht),
          List.forall_mem_singleton.2 (hI.admits_mono hle hused)⟩)

/-! ### What a declaration adds -/

theorem keeps_declareTrait (hself : I.Related self watching) {name : Token} {body : ClassBody}
    (hadds : ∀ {k' m' used members}, I.le k k' → I.fits k' m' → m'.current = m.current →
      DeclaresTrait self name body used members m m' → (∀ t ∈ used, I.admits k' (.traitValue t)) →
      I.Later k' (m'.addTrait name body members) fun _ => True) :
    I.Keeps True k (declareTrait self name body) (declareTrait watching name body)
      (fun flow k' _ => I.Flows k' flow) m := by
  rw [declareTrait_eq, declareTrait_eq]
  refine (keeps_useTraits hI hself body.traits {} (by simp)).traced.bind hI
    fun members k' m' hle hcurrent hmembers => ?_
  obtain ⟨hadmits, htrace⟩ := hmembers
  obtain ⟨used, htraits, hgathers⟩ := mapM_of_useTraits htrace
  obtain rfl : members.traits = used := hgathers.traits
  rcases finishTrait_cases name body members m' with ⟨hok, -⟩ | ⟨_, _, _, count, herror, -⟩
  · refine keeps_of_ok _ _ hok (fun _ => rfl) fun hfits => ?_
    have hresult : declareTrait self name body m = .ok .normal (m'.addTrait name body members) := by
      simp only [declareTrait_eq, Bind.bind, EStateM.bind, htrace, hok]
    exact (hadds hle hfits (hcurrent trivial) ⟨htraits, htrace, hgathers, hresult⟩ hadmits).mono
      fun _ _ _ _ => trivial
  · intro hfits
    rw [herror]
    exact ⟨rfl, fun _ => rfl, later_nextId hI hfits count⟩

theorem keeps_declareClass (hself : I.Related self watching) {name : Token} {parent : Option Expr}
    {body : ClassBody}
    (hadds : ∀ {k' m' superclass used members}, I.le k k' → I.fits k' m' → m'.current = m.current →
      DeclaresClass self name parent body superclass used members m m' →
      (∀ definition, superclass = some definition → I.admits k' (.classValue definition)) →
        (∀ t ∈ used, I.admits k' (.traitValue t)) →
          I.Later k' (m'.addClass name parent body superclass members) fun _ => True) :
    I.Keeps True k (declareClass self name parent body) (declareClass watching name parent body)
      (fun flow k' _ => I.Flows k' flow) m := by
  rw [declareClass_eq, declareClass_eq]
  refine (keeps_evaluateSuperclass hI hself name parent).traced.bind hI
    fun superclass k₁ m₁ hle₁ hcurrent₁ hsuperclass => ?_
  refine (keeps_useTraits hI hself body.traits {} (by simp)).traced.bind hI
    fun members k₂ m₂ hle₂ hcurrent₂ hmembers => ?_
  obtain ⟨hadmits, htrace⟩ := hmembers
  obtain ⟨used, htraits, hgathers⟩ := mapM_of_useTraits htrace
  obtain rfl : members.traits = used := hgathers.traits
  have hfinish := finishClass_eq name parent body superclass members m₂
  have hcurrent : (m₂.addClass name parent body superclass members).current = m₂.current := by
    cases superclass <;> rfl
  refine keeps_of_ok _ _ hfinish (fun _ => hcurrent) fun hfits => ?_
  have hresult : declareClass self name parent body m =
      .ok .normal (m₂.addClass name parent body superclass members) := by
    simp only [declareClass_eq, Bind.bind, EStateM.bind, hsuperclass.2, htrace, hfinish]
  refine (hadds (hI.trans hle₁ hle₂) hfits ((hcurrent₂ trivial).trans (hcurrent₁ trivial))
    ⟨⟨m₁, hsuperclass.2, htraits, htrace⟩, hgathers, hresult⟩ ?_ hadmits).mono
    fun _ _ _ _ => trivial
  exact fun definition hdefinition => hI.admits_mono hle₂ (hsuperclass.1 definition hdefinition)

/-! ### Runs of which nothing is assumed -/

/-- Declarations are all that an account has to deal with if any method found on a class may be
bound to any receiver. -/
theorem handles_nothing {stop : Stop}
    (hfinds : ∀ {k definition v name method}, I.admits k (.classValue definition) →
      superMember definition name v.receiverKind = some method → I.receives k v method)
    (haddTrait : ∀ {fuel k m m' name body used members}, I.fits k m' → m'.current = m.current →
      DeclaresTrait (evaluators fuel) name body used members m m' →
      (∀ t ∈ used, I.admits k (.traitValue t)) → I.Later k (m'.addTrait name body members)
        fun _ => True)
    (haddClass : ∀ {fuel k m m' name parent body superclass used members}, I.fits k m' →
      m'.current = m.current →
      DeclaresClass (evaluators fuel) name parent body superclass used members m m' →
      (∀ definition, superclass = some definition → I.admits k (.classValue definition)) →
        (∀ t ∈ used, I.admits k (.traitValue t)) →
          I.Later k (m'.addClass name parent body superclass members) fun _ => True) :
    I.Handles {} stop where
  declares {fuel watching} hself := by
    rw [watchedInside_nothing] at hself ⊢
    constructor
    · intro k name parent body m
      exact keeps_declareClass hI hself fun _ hfits hcurrent hdeclares hsuperclass hused =>
        haddClass hfits hcurrent hdeclares hsuperclass hused
    · intro k name body m
      exact keeps_declareTrait hI hself fun _ hfits hcurrent hdeclares hused =>
        haddTrait hfits hcurrent hdeclares hused
  superTarget _ := keeps_superTarget_of_finds hI hfinds _ _ _

omit hI in
theorem shows_nothing : I.Shows {} {} where
  evaluate_assumed _ := trivial
  execute_assumed _ := trivial
  executeBlock_assumed _ := trivial
  executeTop_assumed _ := trivial
  evaluate _ _ _ := trivial
  execute _ _ _ := trivial
  executeBlock _ _ _ _ := trivial
  invoke _ _ _ _ := trivial
  executeTop _ _ _ := trivial
  binds _ _ _ := trivial

end TraitScript.Account
