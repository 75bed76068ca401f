import TraitScript.Proofs.Account.Judgement
import TraitScript.Proofs.Method.Declare

/-!
# What a machine holds

The values that a machine holds are those of its variables and those of the fields of its objects.
Each primitive adds at most the values that it is given, so an account has to look at these alone.
-/

namespace TraitScript.Machine

/-- A value of a variable or of a field. -/
inductive Holds (m : Machine) (v : Value) : Prop
  | slot {frame : FrameId} {name : String} (h : (m.frames.slots frame).find? name = some (some v))
  | field {holder : Nat} {table : Table Value} {name : String}
      (htable : m.fields[holder]? = some table) (h : table.find? name = some v)

variable {m m' : Machine} {v : Value}

theorem Holds.congr (h : m'.Holds v) (hframes : m'.frames = m.frames)
    (hfields : m'.fields = m.fields) : m.Holds v := by
  cases h with
  | slot h =>
      rw [hframes] at h
      exact .slot h
  | field htable h =>
      rw [hfields] at htable
      exact .field htable h

theorem Holds.of_bind {frame : FrameId} {name : String} {value : Option Value}
    (h : Holds { m with frames := m.frames.bind frame name value } v) :
    m.Holds v ∨ value = some v := by
  cases h with
  | slot h =>
      rw [FrameStore.find?_slots_bind] at h
      split at h
      · exact .inr (Option.some.inj h)
      · exact .inl (.slot h)
  | field htable h => exact .inl (.field htable h)

theorem Holds.of_addFrame {origin : Origin} {frame : Frame Value}
    (h : (m.addFrame origin frame).Holds v) :
    m.Holds v ∨ ∃ name, frame.slots.find? name = some (some v) := by
  cases h with
  | slot h =>
      rw [addFrame, FrameStore.slots_add] at h
      split at h
      · exact .inr ⟨_, h⟩
      · exact .inl (.slot h)
  | field htable h => exact .inl (.field htable h)

theorem Holds.of_emptyFrame {origin : Origin} {around : Option FrameId}
    (h : (m.addFrame origin ⟨∅, around⟩).Holds v) : m.Holds v :=
  h.of_addFrame.elim id fun ⟨_, hname⟩ => nomatch hname

theorem Holds.of_newHolder (h : Holds { m with fields := m.fields.push ∅ } v) : m.Holds v := by
  cases h with
  | slot h => exact .slot h
  | field htable h =>
      rw [Array.getElem?_push] at htable
      split at htable
      · rw [← Option.some.inj htable] at h
        cases h
      · exact .field htable h

theorem Holds.of_setField {holder : Nat} {name : String} {value : Value}
    (h : Holds { m with fields := m.fields.modify holder (·.insert name value) } v) :
    m.Holds v ∨ v = value := by
  cases h with
  | slot h => exact .inl (.slot h)
  | field htable h =>
      rw [Array.getElem?_modify] at htable
      split at htable
      · obtain ⟨old, hold, rfl⟩ := Option.map_eq_some_iff.1 htable
        rw [Table.find?_insert] at h
        split at h
        · exact .inr (Option.some.inj h).symm
        · exact .inl (.field hold h)
      · exact .inl (.field htable h)

theorem Holds.of_nextRound (h : m.nextRound.Holds v) : m.Holds v := by
  have hframe : (m.addFrame (m.origins[m.current]?.getD .globals)
      ⟨m.frames.slots m.current, m.frames.enclosing? m.current⟩).Holds v :=
    h.congr rfl rfl
  rcases hframe.of_addFrame with hold | ⟨name, hcopy⟩
  · exact hold
  · exact .slot hcopy

/-- A frame that binds one name holds one value. -/
theorem Holds.of_addBinding {origin : Origin} {name : String} {value : Value}
    {around : Option FrameId}
    (h : (m.addFrame origin
      ⟨(∅ : Table (Option Value)).insert name (some value), around⟩).Holds v) :
    m.Holds v ∨ v = value := by
  refine h.of_addFrame.imp_right fun ⟨other, hother⟩ => ?_
  rw [Table.find?_insert] at hother
  split at hother
  · exact (Option.some.inj (Option.some.inj hother)).symm
  · cases hother

theorem Holds.of_addReceiver {method : Closure} {receiver : Value}
    (h : (m.addReceiver method receiver).Holds v) : m.Holds v ∨ v = receiver := by
  have hframe : (m.addFrame (.receiver method.decl receiver)
      ⟨(∅ : Table (Option Value)).insert "this" (some receiver), some method.frame⟩).Holds v :=
        h.congr rfl rfl
  exact hframe.of_addBinding

theorem Holds.of_addTrait {name : Token} {body : ClassBody} {used : Eval.Members}
    (h : (m.addTrait name body used).Holds v) :
    m.Holds v ∨ v = .traitValue (m.newTrait name body used) := by
  have hbound : Holds
      { m with
        frames := m.frames.define m.current name.lexeme (.traitValue (m.newTrait name body used)) }
    v := h.congr rfl rfl
  exact hbound.of_bind.imp_right fun hv => (Option.some.inj hv).symm

theorem Holds.of_addSuper {declaration : Stmt} {superclass : Option Class}
    (h : (m.addSuper declaration superclass).Holds v) :
    m.Holds v ∨ ∃ definition, superclass = some definition ∧ v = .classValue definition := by
  cases superclass with
  | none => exact .inl h
  | some definition => exact (Holds.of_addBinding h).imp_right fun hv => ⟨definition, rfl, hv⟩

theorem Holds.of_addClass {name : Token} {parent : Option Expr} {body : ClassBody}
    {superclass : Option Class} {used : Eval.Members}
    (h : (m.addClass name parent body superclass used).Holds v) :
    m.Holds v ∨ (∃ definition, superclass = some definition ∧ v = .classValue definition) ∨
      v = .classValue (m.newClass name body superclass used) := by
  let inside := m.addSuper (.classDecl name parent body) superclass
  have hfields : inside.fields = m.fields := Eval.addSuper_fields m _ superclass
  have hadded : Holds { inside with
      frames := inside.frames.define m.current name.lexeme
        (.classValue (m.newClass name body superclass used))
      fields := inside.fields.push ∅ } v := h.congr rfl (by rw [hfields]; rfl)
  rcases (Holds.of_newHolder (m := { inside with frames := _ }) hadded).of_bind with hinside | hnew
  · exact hinside.of_addSuper.imp_right .inl
  · exact .inr (.inr (Option.some.inj hnew).symm)

/-- A machine in which nothing was run holds nothing. -/
theorem not_holds_bare (world : World) (v : Value) : ¬ (bare world).Holds v := by
  intro h
  cases h with
  | slot h =>
      change ((FrameStore.empty.add ⟨∅, none⟩).slots _).find? _ = _ at h
      rw [FrameStore.slots_add] at h
      split at h <;> cases h
  | field htable _ => simp [bare] at htable

end TraitScript.Machine
