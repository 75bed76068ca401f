import TraitScript.Eval.Function
import TraitScript.Proofs.Eval.Watch
import TraitScript.Proofs.Moved.Frames

/-!
# Machines whose frames lie in different places

Two machines correspond when their frames and the values of their variables and fields do, and all
the rest is the same. A sight of two machines says which frames correspond and in which of them code
runs. `Leads` compares two computations started in machines of which there is a sight: both end with
corresponding results or stop for the same reason, and frames that corresponded before do so
afterwards.

One rule for each way of putting computations together, and one lemma for each primitive of the
machine.
-/

namespace TraitScript

/-! ### Native functions -/

/-- Actions that do the same with corresponding values, also later on, when more frames
correspond. -/
inductive Action.Moved : FramePairs → Action → Action → Prop
  | done {P : FramePairs} {v v' : Value} (h : v.Moved P v') : Action.Moved P (.done v) (.done v')
  | fail {P : FramePairs} (cause : RuntimeError.Cause) : Action.Moved P (.fail cause) (.fail cause)
  | write {P : FramePairs} (text : String) {next next' : Action} (h : Action.Moved P next next') :
      Action.Moved P (.write text next) (.write text next')
  | readLine {P : FramePairs} {next next' : Option String → Action}
      (h : ∀ line, Action.Moved P (next line) (next' line)) :
      Action.Moved P (.readLine next) (.readLine next')
  | readClock {P : FramePairs} {next next' : Float → Action}
      (h : ∀ seconds, Action.Moved P (next seconds) (next' seconds)) :
      Action.Moved P (.readClock next) (.readClock next')
  | pick {P : FramePairs} (low high : Int) {next next' : Int → Action}
      (h : ∀ n, Action.Moved P (next n) (next' n)) :
      Action.Moved P (.pick low high next) (.pick low high next')
  | call {P : FramePairs} {callee callee' : Value} (line : Nat) {arguments arguments' : List Value}
      {next next' : Value → Action}
      (hcallee : callee.Moved P callee')
      (harguments : List.Forall₂ (Value.Moved P) arguments arguments')
      (h : ∀ P', P ≤ P' → ∀ v v', v.Moved P' v' → Action.Moved P' (next v) (next' v')) :
      Action.Moved P (.call callee line arguments next) (.call callee' line arguments' next')

/-- What a native function does with functions does not depend on where their frames lie. -/
def Native.Blind (native : Native) : Prop :=
  ∀ ⦃P : FramePairs⦄ ⦃arguments arguments' : List Value⦄,
    List.Forall₂ (Value.Moved P) arguments arguments' →
    Action.Moved P (native.body arguments) (native.body arguments')

theorem Native.blind_clock : Native.clock.Blind :=
  fun _ _ _ _ => .readClock fun _ => .done (.number _)

theorem Native.blind_randint : Native.randint.Blind := by
  intro P arguments arguments' h
  cases h with
  | nil => exact .fail _
  | cons ha h => cases h with
    | nil => cases ha <;> exact .fail _
    | cons hb h => cases h with
      | cons _ _ => cases ha <;> cases hb <;> exact .fail _
      | nil =>
          cases ha with
          | number a => cases hb with
            | number b =>
                unfold Native.randint
                dsimp only
                split
                · exact .fail _
                · exact .pick _ _ fun _ => .done (.number _)
            | _ => exact .fail _
          | _ => cases hb <;> exact .fail _

theorem Native.blind_input : Native.input.Blind := by
  intro P arguments arguments' h
  cases h with
  | nil => exact .fail _
  | cons ha h => cases h with
    | cons _ _ => cases ha <;> exact .fail _
    | nil => cases ha with
      | string prompt =>
          refine .write _ (.readLine fun line => ?_)
          cases line with
          | some line => exact .done (.string _)
          | none => exact .done .nil
      | _ => exact .fail _

/-- The functions every script can use are blind. -/
theorem Native.blind_standard : ∀ native ∈ Native.standard, native.Blind := by
  simp only [Native.standard, List.mem_cons, List.not_mem_nil, or_false,
    forall_eq_or_imp, forall_eq]
  exact ⟨blind_clock, blind_randint, blind_input⟩

/-! ### Machines -/

/-- Machines with corresponding frames, wherever code runs in them. -/
structure Machine.Moved (P : FramePairs) (own : List (FrameId × FrameId)) (m m' : Machine) :
    Prop where
  frames : m.frames.Moved P own m'.frames
  fields : m'.fields.size = m.fields.size ∧
    ∀ holder : Nat, Option.Rel (Table.Matches (Value.Moved P)) m.fields[holder]? m'.fields[holder]?
  globals : P m.globals m'.globals ∧ m.frames.enclosing? m.globals = none
  nextId : m'.nextId = m.nextId
  distances : m'.distances = m.distances
  natives : m'.natives = m.natives ∧ ∀ native ∈ m.natives, native.Blind
  output : m'.output = m.output
  world : m'.world = m.world

namespace Machine.Moved

variable {P P' : FramePairs} {own own' : List (FrameId × FrameId)} {m m' : Machine}

theorem outward (h : m.Moved P own m') (hrest : own' <:+ own) : m.Moved P own' m' :=
  { h with frames := h.frames.outward hrest }

/-- The frame in which code runs may be any. -/
theorem moveTo (h : m.Moved P own m') (frame frame' : FrameId) :
    Machine.Moved P own { m with current := frame } { m' with current := frame' } :=
  { h with }

/-- Other stores, in which more frames may correspond. -/
theorem withFrames (h : m.Moved P own m') (hle : P ≤ P') {store store' : FrameStore Value}
    (hframes : store.Moved P' own' store') (hglobals : store.enclosing? m.globals = none)
    (origins origins' : Array Origin) :
    Machine.Moved P' own' { m with frames := store, origins := origins }
      { m' with frames := store', origins := origins' } where
  frames := hframes
  fields := ⟨h.fields.1, fun holder => rel_weaken (h.fields.2 holder) fun htable => htable.imp
    fun hv => Value.Moved.mono hle hv⟩
  globals := ⟨hle _ _ h.globals.1, hglobals⟩
  nextId := h.nextId
  distances := h.distances
  natives := h.natives
  output := h.output
  world := h.world

theorem globals_add (h : m.Moved P own m') (frame : Frame Value) :
    (m.frames.add frame).enclosing? m.globals = none := by
  rw [FrameStore.enclosing?_add, if_neg (Nat.ne_of_lt (h.frames.range (.inl h.globals.1)).1)]
  exact h.globals.2

theorem bind (h : m.Moved P own m') {a b : FrameId} (hab : P.with own a b) (name : String)
    {value value' : Option Value} (hvalue : Option.Rel (Value.Moved P) value value') :
    Machine.Moved P own { m with frames := m.frames.bind a name value }
      { m' with frames := m'.frames.bind b name value' } := by
  refine h.withFrames (le_refl P) (h.frames.bind hab name hvalue) ?_ m.origins m'.origins
  rw [FrameStore.enclosing?_bind]
  exact h.globals.2

theorem setField (h : m.Moved P own m') (holder : Nat) (name : String) {v v' : Value}
    (hv : v.Moved P v') :
    Machine.Moved P own { m with fields := m.fields.modify holder (·.insert name v) }
      { m' with fields := m'.fields.modify holder (·.insert name v') } := by
  obtain ⟨hsize, hfields⟩ := h.fields
  refine { h with fields := ⟨?_, fun id => ?_⟩ }
  · simp only [Array.size_modify, hsize]
  · simp only [Array.getElem?_modify]
    split
    · rcases rel_cases (hfields id) with ⟨hleft, hright⟩ | ⟨table, table', hleft, hright, htable⟩
      · rw [hleft, hright]
        exact .none
      · rw [hleft, hright]
        exact .some (htable.insert name hv)
    · exact hfields id

theorem newHolder (h : m.Moved P own m') :
    Machine.Moved P own { m with fields := m.fields.push ∅ }
      { m' with fields := m'.fields.push ∅ } := by
  obtain ⟨hsize, hfields⟩ := h.fields
  refine { h with fields := ⟨?_, fun holder => ?_⟩ }
  · simp only [Array.size_push, hsize]
  · simp only [Array.getElem?_push, hsize]
    split
    · exact .some Table.matches_empty
    · exact hfields holder

end Machine.Moved

/-- A sight of two machines: frames that values lead to, further frames from the innermost outward,
and the frames in which code runs. -/
structure Sight where
  shared : FramePairs
  own : List (FrameId × FrameId)
  left : FrameId
  right : FrameId
  here : shared.with own left right

namespace Sight

/-- The same sight when values lead to more frames. -/
def widen (S : Sight) {P : FramePairs} (hle : S.shared ≤ P) : Sight :=
  ⟨P, S.own, S.left, S.right, FramePairs.with_mono hle _ _ _ S.here⟩

/-- The same sight from other frames. -/
def moveTo (S : Sight) {a b : FrameId} (hab : S.shared.with S.own a b) : Sight :=
  ⟨S.shared, S.own, a, b, hab⟩

structure Sees (S : Sight) (m m' : Machine) : Prop where
  moved : m.Moved S.shared S.own m'
  left : m.current = S.left
  right : m'.current = S.right

/-- Values may lead to the frames in which code runs. -/
def Open (S : Sight) : Prop := S.shared S.left S.right

end Sight

namespace Eval

variable {α β γ δ : Type} {S : Sight} {own : List (FrameId × FrameId)}
  {C : FrameId → FrameId → Prop} {Q : FramePairs → α → β → Prop}
  {Q' : FramePairs → γ → δ → Prop}

/-- How two computations end: alike, in frames that are in a given relation. -/
inductive Alongside (P : FramePairs) (own : List (FrameId × FrameId)) (C : FrameId → FrameId → Prop)
    (Q : FramePairs → α → β → Prop) :
    Result α → Result β → Prop
  | ok {P' : FramePairs} {a : α} {b : β} {m m' : Machine} (hle : P ≤ P')
      (hmoved : m.Moved P' own m') (hcurrent : C m.current m'.current)
      (h : Q P' a b) : Alongside P own C Q (.ok a m) (.ok b m')
  | error {P' : FramePairs} {stop : Stop} {m m' : Machine} (hle : P ≤ P')
      (hmoved : m.Moved P' own m') (hcurrent : C m.current m'.current) :
      Alongside P own C Q (.error stop m) (.error stop m')

/-- Two computations that do the same in machines of which there is a sight. -/
def Leads (S : Sight) (own : List (FrameId × FrameId)) (C : FrameId → FrameId → Prop) (x : Eval α)
    (y : Eval β) (Q : FramePairs → α → β → Prop) : Prop :=
  ∀ m m', S.Sees m m' → Alongside S.shared own C Q (x m) (y m')

/-- The same for computations that end in the frames in which they started. -/
abbrev Matches (S : Sight) (x : Eval α) (y : Eval β) (Q : FramePairs → α → β → Prop) : Prop :=
  Leads S S.own (fun a b => a = S.left ∧ b = S.right) x y Q

/-! ### Rules -/

theorem Alongside.cases {P : FramePairs} {x : Result α} {y : Result β}
    (h : Alongside P own C Q x y) :
    (∃ P' a b m m', x = .ok a m ∧ y = .ok b m' ∧ P ≤ P' ∧ m.Moved P' own m' ∧
      C m.current m'.current ∧ Q P' a b) ∨
      ∃ P' stop m m', x = .error stop m ∧ y = .error stop m' ∧ P ≤ P' ∧ m.Moved P' own m' ∧
        C m.current m'.current := by
  cases h with
  | ok hle hmoved hcurrent h => exact .inl ⟨_, _, _, _, _, rfl, rfl, hle, hmoved, hcurrent, h⟩
  | error hle hmoved hcurrent => exact .inr ⟨_, _, _, _, rfl, rfl, hle, hmoved, hcurrent⟩

theorem Alongside.of_grown {P P' : FramePairs} (hle : P ≤ P') {x : Result α} {y : Result β}
    (h : Alongside P' own C Q x y) :
    Alongside P own C Q x y := by
  cases h with
  | ok hle' hmoved hcurrent h => exact .ok (hle.trans hle') hmoved hcurrent h
  | error hle' hmoved hcurrent => exact .error (hle.trans hle') hmoved hcurrent

/-- One computation after another. -/
theorem Matches.then {x : Eval α} {y : Eval β} {f : α → Eval γ} {g : β → Eval δ}
    (hx : Matches S x y Q) (hown : own <:+ S.own) (hC : C S.left S.right)
    (hf : ∀ {P : FramePairs} {a b} (hle : S.shared ≤ P), Q P a b →
      Leads (S.widen hle) own C (f a) (g b) Q') :
    Leads S own C (x >>= f) (y >>= g) Q' := by
  intro m m' hsees
  simp only [Bind.bind, EStateM.bind]
  rcases (hx m m' hsees).cases with ⟨P, a, b, m₁, m₁', hleft, hright, hle, hmoved, hcurrent, hab⟩ |
    ⟨P, stop, m₁, m₁', hleft, hright, hle, hmoved, hcurrent⟩
  · rw [hleft, hright]
    exact (hf hle hab m₁ m₁' ⟨hmoved, hcurrent.1, hcurrent.2⟩).of_grown hle
  · rw [hleft, hright]
    refine .error hle (hmoved.outward hown) ?_
    rw [hcurrent.1, hcurrent.2]
    exact hC

theorem Matches.bind {x : Eval α} {y : Eval β} {f : α → Eval γ} {g : β → Eval δ}
    (hx : Matches S x y Q)
    (hf : ∀ {P : FramePairs} {a b} (hle : S.shared ≤ P), Q P a b →
      Matches (S.widen hle) (f a) (g b) Q') :
    Matches S (x >>= f) (y >>= g) Q' :=
  hx.then (List.suffix_refl _) ⟨rfl, rfl⟩ hf

/-- Computations that end at once. -/
theorem matches_of_ok {x : Eval α} {y : Eval β}
    (h : ∀ m m', S.Sees m m' → ∃ P a b n n', x m = .ok a n ∧ y m' = .ok b n' ∧ S.shared ≤ P ∧
      n.Moved P S.own n' ∧ n.current = m.current ∧ n'.current = m'.current ∧ Q P a b) :
    Matches S x y Q := by
  intro m m' hsees
  obtain ⟨P, a, b, n, n', hleft, hright, hle, hmoved, hcurrent, hcurrent', hQ⟩ := h m m' hsees
  rw [hleft, hright]
  exact .ok hle hmoved ⟨hcurrent.trans hsees.left, hcurrent'.trans hsees.right⟩ hQ

theorem leads_pure {a : α} {b : β} (hown : own <:+ S.own) (hC : C S.left S.right)
    (h : Q S.shared a b) :
    Leads S own C (pure a) (pure b) Q := by
  intro m m' hsees
  refine .ok (le_refl _) (hsees.moved.outward hown) ?_ h
  rw [hsees.left, hsees.right]
  exact hC

theorem matches_pure {a : α} {b : β} (h : Q S.shared a b) : Matches S (pure a) (pure b) Q :=
  leads_pure (List.suffix_refl _) ⟨rfl, rfl⟩ h

theorem leads_throw (hown : own <:+ S.own) (hC : C S.left S.right) (stop : Stop) :
    Leads S own C (throw stop : Eval α) (throw stop : Eval β) Q := by
  intro m m' hsees
  refine .error (le_refl _) (hsees.moved.outward hown) ?_
  rw [hsees.left, hsees.right]
  exact hC

theorem matches_throw (stop : Stop) : Matches S (throw stop : Eval α) (throw stop : Eval β) Q :=
  leads_throw (List.suffix_refl _) ⟨rfl, rfl⟩ stop

theorem matches_raise (line : Option Nat) (cause : RuntimeError.Cause) :
    Matches S (raise line cause : Eval α) (raise line cause : Eval β) Q :=
  matches_throw _

theorem matches_raiseAt (token : Token) (cause : RuntimeError.Cause) :
    Matches S (raiseAt token cause : Eval α) (raiseAt token cause : Eval β) Q :=
  matches_throw _

theorem matches_fault (f : Fault) : Matches S (fault f : Eval α) (fault f : Eval β) Q :=
  matches_throw _

/-- What runs in other frames may end anywhere, and may use further frames that are forgotten
afterwards. -/
theorem Leads.inFrame (inner : Sight) {x : Eval α} {y : Eval β}
    (hx : Leads inner S.own (fun _ _ => True) x y Q) {m m' : Machine}
    (hsees : inner.Sees { m with current := inner.left } { m' with current := inner.right })
    (hshared : S.shared ≤ inner.shared) (hleft : m.current = S.left)
    (hright : m'.current = S.right) :
    Alongside S.shared S.own (fun a b => a = S.left ∧ b = S.right) Q (Eval.inFrame inner.left x m)
      (Eval.inFrame inner.right y m') := by
  unfold Eval.inFrame
  dsimp only
  rcases (hx _ _ hsees).cases with ⟨P, a, b, m₁, m₁', hleft', hright', hle, hmoved, -, hab⟩ |
    ⟨P, stop, m₁, m₁', hleft', hright', hle, hmoved, -⟩
  · rw [hleft', hright']
    exact .ok (hshared.trans hle) (hmoved.moveTo _ _) ⟨hleft, hright⟩ hab
  · rw [hleft', hright']
    exact .error (hshared.trans hle) (hmoved.moveTo _ _) ⟨hleft, hright⟩

/-- The same for frames that were there already. -/
theorem Leads.inFrames {a b : FrameId} (hab : S.shared.with S.own a b) {x : Eval α} {y : Eval β}
    (hx : Leads (S.moveTo hab) S.own (fun _ _ => True) x y Q) :
    Matches S (Eval.inFrame a x) (Eval.inFrame b y) Q :=
  fun _ _ hsees => Leads.inFrame _ hx ⟨hsees.moved.moveTo _ _, rfl, rfl⟩ (le_refl _)
    hsees.left hsees.right

theorem Matches.loose {x : Eval α} {y : Eval β} (h : Matches S x y Q) (hown : own <:+ S.own) :
    Leads S own (fun _ _ => True) x y Q := by
  intro m m' hsees
  rcases (h m m' hsees).cases with ⟨P, a, b, m₁, m₁', hleft, hright, hle, hmoved, -, hab⟩ |
    ⟨P, stop, m₁, m₁', hleft, hright, hle, hmoved, -⟩
  · rw [hleft, hright]
    exact .ok hle (hmoved.outward hown) trivial hab
  · rw [hleft, hright]
    exact .error hle (hmoved.outward hown) trivial

/-! ### Frames -/

theorem matches_currentFrame :
    Matches S currentFrame currentFrame
      (fun P a b => P.with S.own a b ∧ a = S.left ∧ b = S.right) :=
  matches_of_ok fun m m' hsees =>
    ⟨S.shared, _, _, m, m', rfl, rfl, le_refl _, hsees.moved, rfl, rfl,
    ⟨by rw [hsees.left, hsees.right]; exact S.here, hsees.left, hsees.right⟩⟩

/-- A new frame in one that values lead to. -/
theorem matches_newFrame (origin origin' : Origin) {around around' : FrameId}
    (haround : S.shared around around') :
    Matches S (newFrame origin around) (newFrame origin' around') (fun P a b => P a b) := by
  refine matches_of_ok fun m m' hsees => ?_
  have hle := S.shared.le_insert m.frames.size m'.frames.size
  have hframes := hsees.moved.frames.add_shared (.empty _) (.some haround)
  exact ⟨_, _, _, _, _, rfl, rfl, hle,
    hsees.moved.withFrames hle hframes (hsees.moved.globals_add _) _ _, rfl, rfl, .inr ⟨rfl, rfl⟩⟩

theorem matches_define {a b : FrameId} (hab : S.shared.with S.own a b) (name : String)
    {v v' : Value} (hv : v.Moved S.shared v') :
    Matches S (define a name v) (define b name v') (fun _ _ _ => True) :=
  matches_of_ok fun _ _ hsees =>
    ⟨S.shared, _, _, _, _, rfl, rfl, le_refl _, hsees.moved.bind hab name (.some hv),
      rfl, rfl, trivial⟩

theorem matches_declare {a b : FrameId} (hab : S.shared.with S.own a b) (name : String) :
    Matches S (declare a name) (declare b name) (fun _ _ _ => True) :=
  matches_of_ok fun _ _ hsees =>
    ⟨S.shared, _, _, _, _, rfl, rfl, le_refl _, hsees.moved.bind hab name .none, rfl, rfl, trivial⟩

/-! ### Variables -/

/-- What was found for an occurrence on a line, or an error there. -/
def foundOn (line : Option Nat) (m : Machine) : Except FrameError Value → Result Value
  | .ok value => .ok value m
  | .error error => .error (.ofFrameError line error) m

theorem readVariable_eq_foundOn (id : Nat) (name : Token) (m : Machine) :
    readVariable id name m = foundOn (some name.line) m
    (match m.distances[id]? with
      | some distance => m.frames.getAt m.current distance name.lexeme
      | none => m.frames.get m.globals name.lexeme) := rfl

theorem alongside_foundOn {m m' : Machine} (hsees : S.Sees m m')
    {found found' : Except FrameError Value}
    (h : FrameStore.Same (Value.Moved S.shared) found found') (line : Option Nat) :
    Alongside S.shared S.own (fun a b => a = S.left ∧ b = S.right) (fun P v v' => v.Moved P v')
      (foundOn line m found) (foundOn line m' found') := by
  cases h with
  | ok hv => exact .ok (le_refl _) hsees.moved ⟨hsees.left, hsees.right⟩ hv
  | error error => exact .error (le_refl _) hsees.moved ⟨hsees.left, hsees.right⟩

theorem matches_readVariable (id : Nat) (name : Token) :
    Matches S (readVariable id name) (readVariable id name) (fun P v v' => v.Moved P v') := by
  intro m m' hsees
  rw [readVariable_eq_foundOn, readVariable_eq_foundOn, hsees.moved.distances,
    hsees.left, hsees.right]
  cases m.distances[id]? with
  | some distance => exact alongside_foundOn hsees (hsees.moved.frames.getAt distance S.here _) _
  | none =>
    exact alongside_foundOn hsees
      (hsees.moved.frames.get (.inl hsees.moved.globals.1) hsees.moved.globals.2 _) _

theorem same_target {m m' : Machine} (hsees : S.Sees m m') (id : Nat) (name : String) :
    FrameStore.Same (S.shared.with S.own) (target m id name) (target m' id name) := by
  unfold target
  rw [hsees.moved.distances, hsees.left, hsees.right]
  cases m.distances[id]? with
  | some distance => exact hsees.moved.frames.locateAt distance S.here name
  | none => exact hsees.moved.frames.locate (.inl hsees.moved.globals.1) hsees.moved.globals.2 name

theorem matches_writeVariable (id : Nat) (name : Token) {v v' : Value} (hv : v.Moved S.shared v') :
    Matches S (writeVariable id name v) (writeVariable id name v') (fun _ _ _ => True) := by
  intro m m' hsees
  unfold writeVariable
  rcases (same_target hsees id name.lexeme).cases with
    ⟨a, b, hleft, hright, hab⟩ | ⟨error, hleft, hright⟩
  · rw [hleft, hright]
    exact .ok (le_refl _) (hsees.moved.bind hab name.lexeme (.some hv))
      ⟨hsees.left, hsees.right⟩ trivial
  · rw [hleft, hright]
    exact .error (le_refl _) hsees.moved ⟨hsees.left, hsees.right⟩

theorem matches_distance? (id : Nat) :
    Matches S (distance? id) (distance? id) (fun _ found found' => found' = found) :=
  matches_of_ok fun m m' hsees =>
    ⟨S.shared, _, _, m, m', rfl, rfl, le_refl _, hsees.moved, rfl, rfl,
      by rw [hsees.moved.distances]⟩

theorem matches_readAt {a b : FrameId} (hab : S.shared.with S.own a b) (distance : Nat)
    (name : String) :
    Matches S (readAt a distance name) (readAt b distance name)
      (fun P => FrameStore.Same (Value.Moved P)) :=
  matches_of_ok fun m m' hsees =>
    ⟨S.shared, _, _, m, m', rfl, rfl, le_refl _, hsees.moved, rfl, rfl,
      hsees.moved.frames.getAt distance hab name⟩

/-! ### Objects -/

theorem matches_freshId : Matches S freshId freshId (fun _ id id' => id' = id) :=
  matches_of_ok fun _ _ hsees => ⟨S.shared, _, _, _, _, rfl, rfl, le_refl _,
    { hsees.moved with nextId := congrArg (· + 1) hsees.moved.nextId }, rfl, rfl,
    hsees.moved.nextId⟩

theorem matches_newHolder : Matches S newHolder newHolder (fun _ id id' => id' = id) :=
  matches_of_ok fun _ _ hsees =>
    ⟨S.shared, _, _, _, _, rfl, rfl, le_refl _, hsees.moved.newHolder, rfl, rfl,
      hsees.moved.fields.1⟩

theorem matches_record (provenance provenance' : Provenance) :
    Matches S (record provenance) (record provenance') (fun _ _ _ => True) :=
  matches_of_ok fun _ _ hsees =>
    ⟨S.shared, _, _, _, _, rfl, rfl, le_refl _, { hsees.moved with }, rfl,
    rfl, trivial⟩

theorem matches_field? (holder : Nat) (name : String) :
    Matches S (field? holder name) (field? holder name) (fun P => Option.Rel (Value.Moved P)) := by
  refine matches_of_ok fun m m' hsees =>
    ⟨S.shared, _, _, m, m', rfl, rfl, le_refl _, hsees.moved, rfl, rfl, ?_⟩
  rcases rel_cases (hsees.moved.fields.2 holder) with
    ⟨hleft, hright⟩ | ⟨table, table', hleft, hright, htable⟩
  · rw [hleft, hright]
    exact .none
  · rw [hleft, hright]
    exact htable name

theorem matches_setField (holder : Nat) (name : String) {v v' : Value} (hv : v.Moved S.shared v') :
    Matches S (setField holder name v) (setField holder name v') (fun _ _ _ => True) :=
  matches_of_ok fun _ _ hsees =>
    ⟨S.shared, _, _, _, _, rfl, rfl, le_refl _, hsees.moved.setField holder name hv,
      rfl, rfl, trivial⟩

/-! ### The outside world -/

theorem matches_write (text : String) : Matches S (write text) (write text) (fun _ _ _ => True) :=
  matches_of_ok fun _ _ hsees => ⟨S.shared, _, _, _, _, rfl, rfl, le_refl _,
    { hsees.moved with output := congrArg (· ++ text) hsees.moved.output }, rfl, rfl, trivial⟩

theorem matches_readClock : Matches S readClock readClock (fun _ a b => b = a) := by
  intro m m' hsees
  unfold readClock
  rw [hsees.moved.world]
  exact .ok (le_refl _) { hsees.moved with world := rfl } ⟨hsees.left, hsees.right⟩ rfl

theorem matches_pick (low high : Int) :
    Matches S (pick low high) (pick low high) (fun _ a b => b = a) := by
  intro m m' hsees
  unfold pick
  rw [hsees.moved.world]
  exact .ok (le_refl _) { hsees.moved with world := rfl } ⟨hsees.left, hsees.right⟩ rfl

theorem matches_readLine : Matches S readLine readLine (fun _ a b => b = a) := by
  intro m m' hsees
  unfold readLine
  rw [hsees.moved.world]
  split
  · exact .ok (le_refl _) hsees.moved ⟨hsees.left, hsees.right⟩ rfl
  · dsimp only
    split
    · exact .ok (le_refl _) { hsees.moved with world := rfl } ⟨hsees.left, hsees.right⟩ rfl
    · exact .error (le_refl _) { hsees.moved with world := rfl } ⟨hsees.left, hsees.right⟩

/-- A native function answers corresponding arguments with corresponding actions. -/
theorem matches_nativeAction (ref : NativeRef) {arguments arguments' : List Value}
    (harguments : List.Forall₂ (Value.Moved S.shared) arguments arguments') :
    Matches S (nativeAction ref arguments) (nativeAction ref arguments')
      (fun P => Action.Moved P) := by
  intro m m' hsees
  unfold nativeAction
  rw [hsees.moved.natives.1]
  cases hnative : m.natives[ref.id]? with
  | none => exact .ok (le_refl _) hsees.moved ⟨hsees.left, hsees.right⟩ (.fail _)
  | some native =>
      have hblind := hsees.moved.natives.2 native (Array.mem_of_getElem? hnative)
      exact .ok (le_refl _) hsees.moved ⟨hsees.left, hsees.right⟩ (hblind harguments)

end Eval
end TraitScript
