import TraitScript.Proofs.Account.Session
import TraitScript.Proofs.Method.Merge
import TraitScript.Proofs.Moved.Run

/-!
# Machines that nothing leads out of

A machine is contained when frames and functions lie in frames that it has. Then each of its frames
stands for itself, so the machine corresponds to itself. An account of the number of frames shows
that this is so at every moment of every session.
-/

namespace TraitScript

open Eval

theorem rel_some {α β : Type} {R : α → β → Prop} {x : Option α} {y : Option β}
    (h : Option.Rel R x y) {a : α} {b : β} (hx : x = some a) (hy : y = some b) : R a b := by
  subst hx
  subst hy
  cases h with
  | some h => exact h

/-! ### Frames that stand for themselves -/

/-- The first frames stand for themselves, and no others for any. -/
def FramePairs.upTo (size : Nat) : FramePairs := fun a b => a = b ∧ a < size

namespace FramePairs

theorem upTo_mono {size size' : Nat} (hle : size ≤ size') : upTo size ≤ upTo size' :=
  fun _ _ h => ⟨h.1, Nat.lt_of_lt_of_le h.2 hle⟩

theorem insert_upTo (size : Nat) : (upTo size).insert size size = upTo (size + 1) := by
  funext a b
  refine propext ⟨?_, fun ⟨heq, hlt⟩ => ?_⟩
  · rintro (⟨rfl, hlt⟩ | ⟨rfl, rfl⟩)
    · exact ⟨rfl, Nat.lt_succ_of_lt hlt⟩
    · exact ⟨rfl, Nat.lt_succ_self _⟩
  · subst heq
    exact (Nat.lt_succ_iff_lt_or_eq.1 hlt).imp (⟨rfl, ·⟩) fun heq => ⟨heq, heq⟩

end FramePairs

/-! ### What declarations make -/

section Declarations

variable {P : FramePairs}

theorem Eval.moved_of_merge {line : Option Nat} {conflict : String → RuntimeError.Cause}
    {entries : List (String × Closure)} {table joined : MethodTable} {m m' : Machine}
    (hok : merge line conflict entries table m = .ok joined m')
    (hentries : MethodTable.Moved P ⟨entries⟩ ⟨entries⟩) (htable : table.Moved P table) :
    m' = m ∧ joined.Moved P joined := by
  induction entries generalizing table with
  | nil =>
      cases hok
      exact ⟨rfl, htable⟩
  | cons entry rest ih =>
      obtain ⟨name, method⟩ := entry
      rw [merge] at hok
      cases hentries with
      | cons hentry hrest =>
          split at hok
          · cases hok
          · exact ih hok hrest (htable.insert name hentry.2)

theorem Eval.moved_of_mergeTable {line : Option Nat} {conflict : String → RuntimeError.Cause}
    {used : Trait} {ofClass : Bool} {theirs table joined : MethodTable} {m m' : Machine}
    (hok : mergeTable line conflict used ofClass theirs table m = .ok joined m')
    (htheirs : theirs.Moved P theirs) (htable : table.Moved P table) :
    m' = m ∧ joined.Moved P joined :=
  moved_of_merge hok (MethodTable.Like.arrange htheirs _) htable

/-- Using traits that were evaluated adds their members and does nothing else. -/
theorem Eval.moved_of_useTraits {self : Evaluators} {exprs : List Expr} {used : List Trait}
    {before after : Members} {m m₁ m₂ : Machine}
    (htraits : exprs.mapM (evaluateTrait self) m = .ok used m₁)
    (hok : useTraits self exprs before m = .ok after m₂)
    (hused : ∀ t ∈ used, Value.Moved P (.traitValue t) (.traitValue t))
    (hbefore : before.Moved P before) :
    after.Moved P after := by
  induction exprs generalizing used before m with
  | nil =>
      cases htraits
      cases hok
      exact hbefore
  | cons expr rest ih =>
      obtain ⟨t, between, traits, hfirst, hrest, rfl⟩ := mapM_cons_eq_ok htraits
      obtain ⟨ht, hothers⟩ := List.forall_mem_cons.1 hused
      obtain ⟨t', _, hfirst', hmerges⟩ := bind_eq_ok.1 hok
      obtain ⟨rfl, rfl⟩ := EStateM.Result.ok.inj (hfirst.symm.trans hfirst')
      cases ht with
      | traitValue id name htheirs hclassTheirs =>
          obtain ⟨methods, _, hmerge, hclassMerge⟩ := bind_eq_ok.1 hmerges
          obtain ⟨rfl, hmethods⟩ := moved_of_mergeTable hmerge htheirs hbefore.methods
          obtain ⟨classMethods, _, hmerge', hlater⟩ := bind_eq_ok.1 hclassMerge
          obtain ⟨rfl, hclassMethods⟩ :=
            moved_of_mergeTable hmerge' hclassTheirs hbefore.classMethods
          exact ih hrest hlater hothers ⟨hmethods, hclassMethods⟩

/-- The members that a trait gets are those of the traits that it uses. -/
theorem Eval.DeclaresTrait.moved_members {self : Evaluators} {name : Token} {body : ClassBody}
    {used : List Trait} {members : Members} {m m' : Machine}
    (h : DeclaresTrait self name body used members m m')
    (hused : ∀ t ∈ used, Value.Moved P (.traitValue t) (.traitValue t)) : members.Moved P members :=
  moved_of_useTraits h.traits h.uses hused (Members.moved_empty P)

/-- The same for a class. -/
theorem Eval.DeclaresClass.moved_members {self : Evaluators} {name : Token} {parent : Option Expr}
    {body : ClassBody} {superclass : Option Class} {used : List Trait} {members : Members}
    {m m' : Machine} (h : DeclaresClass self name parent body superclass used members m m')
    (hused : ∀ t ∈ used, Value.Moved P (.traitValue t) (.traitValue t)) :
    members.Moved P members := by
  obtain ⟨between, -, htraits, huses⟩ := h.evaluated
  exact moved_of_useTraits htraits huses hused (Members.moved_empty P)

end Declarations

/-! ### Contained machines -/

theorem FrameStore.lt_size_of_find? {α : Type} {store : FrameStore α} {frame : FrameId}
    {name : String} {value : Option α} (h : (store.slots frame).find? name = some value) :
    frame < store.size := by
  by_contra hframe
  rw [slots, Array.getElem?_eq_none (Nat.le_of_not_lt hframe)] at h
  cases h

/-- A store stays the same when a variable of a frame that it does not have is set. -/
theorem FrameStore.bind_of_size_le {α : Type} {store : FrameStore α} {frame : FrameId}
    (hframe : store.size ≤ frame) (name : String) (value : Option α) :
    store.bind frame name value = store := by
  obtain ⟨frames⟩ := store
  refine congrArg FrameStore.mk (Array.ext_getElem? fun id => ?_)
  rw [Array.getElem?_modify]
  split
  · subst_vars
    rw [Array.getElem?_eq_none hframe]
    rfl
  · rfl

namespace Machine

variable (m : Machine) (declaration : Stmt) (superclass : Option Class)

theorem memberFrame_lt (hcurrent : m.current < m.frames.size) :
    m.memberFrame superclass < (m.addSuper declaration superclass).frames.size := by
  cases superclass with
  | none => exact hcurrent
  | some definition => exact Nat.lt_of_lt_of_eq (Nat.lt_succ_self _) (m.frames.size_add _).symm

end Machine

/-- Frames and functions lie in frames of the machine, and native functions make up none that do
not. -/
structure Machine.Contained (m : Machine) : Prop where
  moved : m.Moved (.upTo m.frames.size) [] m
  current : m.current < m.frames.size
  honest : ∀ native ∈ m.natives, native.Honest

namespace Machine.Contained

variable {m : Machine} (h : m.Contained)

include h

theorem enter {frame : FrameId} (hframe : frame < m.frames.size) :
    Contained { m with current := frame } :=
  ⟨h.moved.moveTo frame frame, hframe, h.honest⟩

theorem addFrame (origin : Origin) {slots : Table (Option Value)} {around : Option FrameId}
    (hslots : SlotsMatch (.upTo m.frames.size) slots slots)
    (haround : Option.Rel (FramePairs.upTo m.frames.size) around around) :
    (m.addFrame origin ⟨slots, around⟩).Contained := by
  have hsize : (m.addFrame origin ⟨slots, around⟩).frames.size = m.frames.size + 1 :=
    m.frames.size_add _
  have hmoved := h.moved.withFrames (FramePairs.le_insert _ _ _)
    (h.moved.frames.add_shared hslots haround) (h.moved.globals_add _)
    (m.origins.push origin) (m.origins.push origin)
  rw [FramePairs.insert_upTo] at hmoved
  refine ⟨?_, ?_, h.honest⟩
  · rw [hsize]
    exact hmoved
  · rw [hsize]
    exact Nat.lt_succ_of_lt h.current

theorem bind (frame : FrameId) (name : String) {value : Option Value}
    (hvalue : Option.Rel (Value.Moved (.upTo m.frames.size)) value value) :
    Contained { m with frames := m.frames.bind frame name value } := by
  have hsize := m.frames.size_bind frame name value
  refine ⟨?_, Nat.lt_of_lt_of_eq h.current hsize.symm, h.honest⟩
  rw [hsize]
  by_cases hframe : frame < m.frames.size
  · exact h.moved.bind (.inl ⟨rfl, hframe⟩) name hvalue
  · rw [FrameStore.bind_of_size_le (Nat.le_of_not_lt hframe)]
    exact h.moved

theorem setField (holder : Nat) (name : String) {v : Value} (hv : v.Moved (.upTo m.frames.size) v) :
    Contained { m with fields := m.fields.modify holder (·.insert name v) } :=
  ⟨h.moved.setField holder name hv, h.current, h.honest⟩

theorem newHolder : Contained { m with fields := m.fields.push ∅ } :=
  ⟨h.moved.newHolder, h.current, h.honest⟩

/-- What is written, read from outside or recorded of occurrences does not matter. -/
theorem aside (output : String) (world : World) (distances : Std.TreeMap Nat Nat) :
    Contained { m with output := output, world := world, distances := distances } :=
  ⟨{ h.moved with output := rfl, world := rfl, distances := rfl }, h.current, h.honest⟩

theorem addNative {native : Native} (hhonest : native.Honest) (hblind : native.Blind) :
    Contained { m with natives := m.natives.push native } := by
  refine ⟨{ h.moved with natives := ⟨rfl, fun other hother => ?_⟩ }, h.current,
    fun other hother => ?_⟩
  · rcases Array.mem_push.1 hother with hold | rfl
    · exact h.moved.natives.2 other hold
    · exact hblind
  · rcases Array.mem_push.1 hother with hold | rfl
    · exact h.honest other hold
    · exact hhonest

theorem withNextId (id : Nat) : Contained { m with nextId := id } :=
  ⟨{ h.moved with nextId := rfl }, h.current, h.honest⟩

theorem addReceiver {method : Closure} {v : Value} (hv : v.Moved (.upTo m.frames.size) v)
    (hmethod : method.frame < m.frames.size) :
    (m.addReceiver method v).Contained :=
  (h.addFrame (.receiver method.decl v) (Table.matches_empty.insert "this" (.some hv))
    (.some ⟨rfl, hmethod⟩)).withNextId _

theorem nextRound : m.nextRound.Contained := by
  have hcurrent : (FramePairs.upTo m.frames.size).with [] m.current m.current :=
    .inl ⟨rfl, h.current⟩
  have hcopy := h.addFrame (m.origins[m.current]?.getD .globals) (h.moved.frames.slots hcurrent)
    (h.moved.frames.enclosing ⟨rfl, h.current⟩)
  exact hcopy.enter (Nat.lt_of_lt_of_eq (Nat.lt_succ_self _) (m.frames.size_add _).symm)

/-! ### Declarations -/

theorem withProvenances (provenances : List Provenance) : Contained { m with provenances } :=
  ⟨{ h.moved with }, h.current, h.honest⟩

theorem addTrait (name : Token) (body : ClassBody) {members : Members}
    (hmembers : members.Moved (.upTo m.frames.size) members) :
    (m.addTrait name body members).Contained := by
  have hframe : FramePairs.upTo m.frames.size m.current m.current := ⟨rfl, h.current⟩
  have htrait : Value.Moved (.upTo m.frames.size) (.traitValue (m.newTrait name body members))
      (.traitValue (m.newTrait name body members)) :=
    .traitValue _ _ (moved_withMethods hframe _ _ _ hmembers.methods)
      (moved_withMethods hframe _ _ _ hmembers.classMethods)
  exact ((h.bind m.current name.lexeme (.some htrait)).withProvenances _).withNextId _

theorem addSuper (declaration : Stmt) {superclass : Option Class}
    (hsuperclass : ∀ definition, superclass = some definition →
      Value.Moved (.upTo m.frames.size) (.classValue definition) (.classValue definition)) :
    (m.addSuper declaration superclass).Contained := by
  cases superclass with
  | none => exact h
  | some definition =>
      exact h.addFrame _ (Table.matches_empty.insert "super" (.some (hsuperclass definition rfl)))
        (.some ⟨rfl, h.current⟩)

theorem addClass (name : Token) (parent : Option Expr) (body : ClassBody)
    {superclass : Option Class} {own : Members}
    (hsuperclass : ∀ definition, superclass = some definition →
      Value.Moved (.upTo m.frames.size) (.classValue definition) (.classValue definition))
    (hown : own.Moved (.upTo m.frames.size) own) :
    (m.addClass name parent body superclass own).Contained := by
  have hinside := h.addSuper (.classDecl name parent body) hsuperclass
  have hle := FramePairs.upTo_mono (m.size_le_addSuper (.classDecl name parent body) superclass)
  have hframe : FramePairs.upTo (m.addSuper (.classDecl name parent body) superclass).frames.size
      (m.memberFrame superclass) _ :=
    ⟨rfl, m.memberFrame_lt _ superclass h.current⟩
  have hparent : Option.Rel (Class.Moved (.upTo m.frames.size)) superclass superclass := by
    cases superclass with
    | none => exact .none
    | some definition => cases hsuperclass definition rfl with
      | classValue hdefinition => exact .some hdefinition
  have hclass := moved_newClass hframe rfl rfl (rel_weaken hparent fun h => Class.Moved.mono hle h)
    (hown.mono hle) name body
  have hadded :=
    ((hinside.bind m.current name.lexeme (.some (.classValue hclass))).newHolder.withProvenances
    (m.provenances ++ [m.classProvenance name parent body superclass own])).withNextId
    (m.nextId + body.classMethods.length + body.methods.length)
  unfold Machine.addClass
  rw [← addSuper_fields m (.classDecl name parent body) superclass]
  exact hadded

end Machine.Contained

theorem FrameStore.moved_empty : FrameStore.Moved (.upTo 0) [] .empty .empty := by
  have hnone : ∀ {a b : FrameId}, ¬ (FramePairs.upTo 0).with [] a b := by
    rintro a b (⟨-, hlt⟩ | hmem)
    · exact Nat.not_lt_zero _ hlt
    · exact List.not_mem_nil hmem
  exact ⟨fun h => (hnone h).elim, fun h => (hnone h).elim, fun h => (hnone (.inl h)).elim,
    fun h => (hnone (.inl h)).elim,
    fun h => nomatch List.suffix_nil.1 h⟩

theorem Machine.moved_bare (world : World) :
    (Machine.bare world).Moved (.upTo 1) [] (Machine.bare world) where
  frames := by
    have hframes : FrameStore.Moved ((FramePairs.upTo 0).insert 0 0) []
        (FrameStore.empty.addEmpty none) (FrameStore.empty.addEmpty none) :=
      FrameStore.moved_empty.add_shared (.empty _) .none
    rw [FramePairs.insert_upTo] at hframes
    exact hframes
  fields := by
    refine ⟨rfl, fun holder => ?_⟩
    rw [bare, Array.getElem?_eq_none (Nat.zero_le _)]
    exact .none
  globals := ⟨⟨rfl, Nat.zero_lt_one⟩, rfl⟩
  nextId := rfl
  distances := rfl
  natives := ⟨rfl, by simp [bare]⟩
  output := rfl
  world := rfl

/-- A machine in which nothing was run is contained. -/
theorem Machine.Contained.bare (world : World) : (Machine.bare world).Contained :=
  ⟨Machine.moved_bare world, Nat.zero_lt_one, by simp [Machine.bare]⟩

/-! ### The account -/

/-- An account of how many frames there are. -/
def Account.containment : Account where
  Known := Nat
  le k k' := k ≤ k'
  fits k m := k = m.frames.size ∧ m.Contained
  admits k v := v.Moved (.upTo k) v
  scope k frame := frame < k
  receives k _ method := method.frame < k

namespace Account

namespace containment

variable {k : Nat} {m m' : Machine} {v : Value} {P : Nat → Prop}

theorem later (hfits : containment.fits k m) (hle : m.frames.size ≤ m'.frames.size)
    (hm' : m'.Contained) (hP : P m'.frames.size) :
    containment.Later k m' P :=
  ⟨m'.frames.size, Nat.le_trans (Nat.le_of_eq hfits.1) hle, ⟨rfl, hm'⟩, hP⟩

/-- The same where there is one more frame. -/
theorem later_frame (hfits : containment.fits k m) (hsize : m'.frames.size = m.frames.size + 1)
    (hm' : m'.Contained) (hP : P (m.frames.size + 1)) :
    containment.Later k m' P := by
  refine later hfits ?_ hm' ?_
  · rw [hsize]
    exact Nat.le_succ _
  · rw [hsize]
    exact hP

theorem admitted (hfits : containment.fits k m) (h : containment.admits k v) :
    v.Moved (.upTo m.frames.size) v := by
  obtain ⟨rfl, -⟩ := hfits
  exact h

theorem admits_mono {k' : Nat} (hle : k ≤ k') (h : containment.admits k v) :
    containment.admits k' v :=
  Value.Moved.mono (FramePairs.upTo_mono hle) h

end containment

open containment

theorem lawful_containment : containment.Lawful where
  refl := Nat.le_refl
  trans := Nat.le_trans
  admits_mono := containment.admits_mono
  scope_mono hle h := Nat.lt_of_lt_of_le h hle
  plain {_ v} h := by
    cases v with
    | nil => exact .nil
    | bool value => exact .bool value
    | number value => exact .number value
    | string text => exact .string text
    | function _ | native _ | classValue _ | object _ | traitValue _ => exact h.elim
  native := .native _
  slots {_ m frame _ _} hfits hfound := by
    obtain ⟨rfl, hm⟩ := hfits
    have hframe := FrameStore.lt_size_of_find? hfound
    exact rel_some (rel_some (hm.moved.frames.slots (.inl ⟨rfl, hframe⟩) _) hfound hfound) rfl rfl
  fields hfits htable hfound := by
    obtain ⟨rfl, hm⟩ := hfits
    exact rel_some (rel_some (hm.moved.fields.2 _) htable htable _) hfound hfound
  natives hfits native hnative := .inl (hfits.2.honest native hnative)
  current hfits := hfits.1 ▸ hfits.2.current
  globals hfits := by
    obtain ⟨rfl, hm⟩ := hfits
    exact hm.moved.globals.1.2
  enter hfits hscope := later hfits (Nat.le_refl _) (hfits.2.enter (hfits.1 ▸ hscope)) trivial
  aside output world distances hfits :=
    later hfits (Nat.le_refl _) (hfits.2.aside output world distances) trivial
  bind {_ m frame name value} hfits hvalue := by
    refine later hfits (Nat.le_of_eq (m.frames.size_bind frame name value).symm)
      (hfits.2.bind frame name ?_) trivial
    cases value with
    | none => exact .none
    | some v => exact .some (admitted hfits (hvalue v rfl))
  setField hfits hv :=
    later hfits (Nat.le_refl _) (hfits.2.setField _ _ (admitted hfits hv)) trivial
  statement {_ m _ _} hfits _ haround := by
    obtain ⟨rfl, hm⟩ := hfits
    exact later_frame ⟨rfl, hm⟩ (m.frames.size_add _)
      (hm.addFrame _ (.empty _) (.some ⟨rfl, haround⟩)) (Nat.lt_succ_self _)
  call {_ m _} hfits hclosure := by
    obtain ⟨rfl, hm⟩ := hfits
    cases hclosure with
    | function hclosure =>
        exact later_frame ⟨rfl, hm⟩ (m.frames.size_add _)
          (hm.addFrame _ (.empty _) (.some hclosure.frame)) (Nat.lt_succ_self _)
  nextRound {_ m} hfits := later_frame hfits (m.frames.size_add _) hfits.2.nextRound trivial
  function decl hfits :=
    later hfits (Nat.le_refl _) (hfits.2.withNextId _)
      (.function ⟨rfl, rfl, rfl, rfl, hfits.2.current⟩)
  inst hfits hclass := by
    refine later hfits (Nat.le_refl _) hfits.2.newHolder ?_
    cases admitted hfits hclass with
    | classValue hdefinition => exact .object _ hdefinition
  finds hv hfind := (rel_some (Value.Like.findMethod hv _) hfind hfind).frame.2
  receiver {_ m _ _} hfits hv hmethod := by
    obtain ⟨rfl, hm⟩ := hfits
    exact later_frame ⟨rfl, hm⟩ (m.frames.size_add _) (hm.addReceiver hv hmethod)
      (.function ⟨rfl, rfl, rfl, rfl, Nat.lt_succ_self _⟩)

theorem handles_containment (stop : Stop) : containment.Handles {} stop := by
  refine handles_nothing lawful_containment (fun {_ _ v name _} hclass hfind => ?_) ?_ ?_
  · cases hclass with
    | classValue hdefinition =>
        cases hkind : v.receiverKind with
        | ofInstance =>
            rw [hkind] at hfind
            exact (rel_some (hdefinition.findMethod name) hfind hfind).frame.2
        | ofClass =>
            rw [hkind] at hfind
            exact (rel_some (hdefinition.findClassMethod name) hfind hfind).frame.2
  · intro fuel k m m' name body used members hfits _ hdeclares hused
    have hown := hdeclares.moved_members fun t ht => admitted hfits (hused t ht)
    exact later hfits (Nat.le_of_eq (FrameStore.size_bind ..).symm)
      (hfits.2.addTrait name body hown) trivial
  · intro fuel k m m' name parent body superclass used members hfits _ hdeclares hsuperclass hused
    have hown := hdeclares.moved_members fun t ht => admitted hfits (hused t ht)
    refine later hfits ?_
      (hfits.2.addClass name parent body
        (fun definition h => admitted hfits (hsuperclass definition h)) hown) trivial
    exact Nat.le_trans (m'.size_le_addSuper _ superclass)
      (Nat.le_of_eq (FrameStore.size_bind ..).symm)

theorem containment_fits_start {natives : List Native}
    (hnatives : ∀ native ∈ natives, native.Honest ∧ native.Blind) (world : World) :
    ∃ k, containment.fits k (Machine.start natives world) := by
  refine fits_start lawful_containment (fun hfits hnative => ?_) hnatives
    ⟨(1 : Nat), rfl, .bare world⟩
  exact later hfits (Nat.le_refl _) (hfits.2.addNative hnative.1 hnative.2) trivial

end Account
end TraitScript
