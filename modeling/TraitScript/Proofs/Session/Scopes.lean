import TraitScript.Proofs.Session.Text

/-!
# Scopes and frames agree

Resolving counts over the scopes of the text, running goes out over frames. Wherever an occurrence
of a name, of `this` or of `super` is evaluated in a session that reads text, the frames around it
are those of the scopes around its place, one by one; so the distance that was recorded for it leads
to the frame of the scope in which resolving found the name, and an occurrence without a distance
stands in no scope that has declared the name.
-/

namespace TraitScript

/-- The use that an expression makes of a name itself, apart from those of its parts. -/
def Expr.use? : Expr → Option Use
  | .variable id name => some (.read id name)
  | .assign id name _ => some (.write id name)
  | .this id keyword => some (.this id keyword)
  | .super id keyword _ => some (.super id keyword)
  | _ => none

theorem Expr.mem_uses_of_use? {expr : Expr} {use : Use} (h : expr.use? = some use) (p : Place) :
    (p, use) ∈ expr.uses p := by
  unfold Expr.use? at h
  split at h <;> cases h <;> simp [Expr.uses]

/-- Where an occurrence leads in a machine, compared with the place in a program where it stands. -/
structure Machine.Locates (m : Machine) (program : List Stmt) (p : Place) (use : Use) (id : Nat)
    (name : String) : Prop where
  occurs : (p, use) ∈ programUses program
  recorded : ⟨id, name, m.distances[id]?⟩ ∈ (resolve program).bindings
  /-- The frames around the occurrence were made for the scopes around its place. -/
  linked : m.Linked m.current p.sites
  /-- A distance leads to the frame of the innermost scope that has declared the name. -/
  bound : ∀ distance, m.distances[id]? = some distance →
      ∃ frame scope, m.frames.ancestor m.current distance = .ok frame ∧
    frame ≠ m.globals ∧ p.scopes[distance]? = some scope ∧ m.site? frame = some scope.site ∧
    name ∈ scope.names ∧
    ∀ nearer ∈ p.scopes.take distance, name ∉ nearer.names
  /-- Without a distance no scope around the place has declared the name. -/
  unbound : m.distances[id]? = none → ∀ scope ∈ p.scopes, name ∉ scope.names

theorem Place.scope_of_distance? {p : Place} {name : String} {distance : Nat}
    (h : p.distance? name = some distance) :
    ∃ scope, p.scopes[distance]? = some scope ∧ name ∈ scope.names ∧
      ∀ nearer ∈ p.scopes.take distance, name ∉ nearer.names := by
  obtain ⟨hlt, hmem, hnearer⟩ := List.findIdx?_eq_some_iff_getElem.1 h
  refine ⟨p.scopes[distance], List.getElem?_eq_getElem hlt, of_decide_eq_true hmem,
    fun nearer hin => ?_⟩
  obtain ⟨i, hi, rfl⟩ := List.mem_take_iff_getElem.1 hin
  have hi' : i < distance := by omega
  simpa using hnearer i hi'

/-- A legal use at a place to which the machine is linked is located. -/
theorem Machine.locates_of_legal {programs : List (List Stmt)} {distances : Nat → Option Nat}
    {m : Machine} (hsound : Regime.Sound (.text programs distances) m) {p : Place}
    (hlinked : m.Linked m.current p.sites) {use : Use} {id : Nat} {name : String}
    (hlegal : (Regime.text programs distances).legal p use)
    (hlookup : use.lookup? = some (id, name)) :
    ∃ program ∈ programs, m.Locates program p use id name := by
  obtain ⟨program, hprogram, htext, hmem⟩ := hlegal
  have hdistance : m.distances[id]? = p.distance? name :=
    hsound.distance_eq trivial ⟨program, hprogram, htext, hmem⟩ hlookup
  refine ⟨program, hprogram, hmem, ?_, hlinked, fun distance hfound => ?_, fun hnone => ?_⟩
  · rw [(Resolve.resolve_programUses program).1, hdistance]
    exact List.mem_filterMap.2
      ⟨_, hmem, Resolve.binding?_of_lookup? (htext.accepted _ hmem) hlookup⟩
  · obtain ⟨scope, hscope, hname, hnearer⟩ := Place.scope_of_distance? (hdistance.symm.trans hfound)
    have hsite : p.sites[distance]? = some scope.site := by
      rw [Place.sites, List.getElem?_map, hscope]
      rfl
    obtain ⟨frame, hframe, hfor⟩ := hlinked.ancestor hsite
    exact ⟨frame, scope, hframe, hsound.ne_globals hfor, hscope, hfor, hname, hnearer⟩
  · have hall := List.findIdx?_eq_none_iff.1 (hdistance.symm.trans hnone)
    exact fun scope hscope => of_decide_eq_false (hall scope hscope)

/-- Every occurrence that is evaluated belongs to one of the programs and is located, before and
after what it does. -/
def scopeWatch (programs : List (List Stmt)) : Watch where
  evaluate expr m result := ∀ use id name, expr.use? = some use → use.lookup? = some (id, name) →
    (∃ program ∈ programs, ∃ p, m.Locates program p use id name) ∧
      ∀ v m', result = .ok v m' → ∃ program ∈ programs, ∃ p, m'.Locates program p use id name

theorem follows_scopeWatch (programs : List (List Stmt)) :
    Session.FollowsAll programs (scopeWatch programs) := by
  intro done distances hdone
  refine ⟨?_, fun _ _ _ _ _ => trivial, fun _ _ _ _ _ _ => trivial, fun _ _ _ _ _ _ => trivial⟩
  intro p expr m hallows hsound hlinked result hends use id name huse hlookup
  have hlegal := hallows _ (Expr.mem_uses_of_use? huse p)
  refine ⟨?_, fun v m' hresult => ?_⟩
  · obtain ⟨program, hprogram, hlocates⟩ := Machine.locates_of_legal hsound hlinked hlegal hlookup
    exact ⟨program, hdone program hprogram, p, hlocates⟩
  · subst hresult
    obtain ⟨program, hprogram, hlocates⟩ :=
      Machine.locates_of_legal hends.2.1 hends.2.2.1 hlegal hlookup
    exact ⟨program, hdone program hprogram, p, hlocates⟩

namespace Session

/-- In a session that reads text every occurrence has an id of its own, every evaluation of an
occurrence finds the frames of the scopes around its place, and no run ends in a fault; in
particular no chain of frames is too short. -/
theorem occurrences_find_their_scopes (natives : List Native)
    (hnatives : ∀ native ∈ natives, native.Honest) (world : World) (inputs : List Input)
    (fuel : Nat) :
    (Uses.ids ((accepted 0 inputs).flatMap programUses)).Nodup ∧
      (∀ stop, sequence (feed (Eval.watchedEvaluators (scopeWatch (accepted 0 inputs)) stop fuel))
          inputs (start natives world) =
        sequence (feed (Eval.evaluators fuel)) inputs (start natives world)) ∧
      ∀ report ∈ (sequence (feed (Eval.evaluators fuel)) inputs (start natives world)).1, ∀ fault,
        report.ending ≠ .fault fault := by
  obtain ⟨nextId, -, hwritten⟩ := accepted_written 0 inputs
  obtain ⟨hwatched, hfaults⟩ :=
    sequence_watched hnatives world inputs (follows_scopeWatch (accepted 0 inputs)) fuel
  exact ⟨hwritten.nodup, hwatched, hfaults⟩

/-- A program that leaves a closure behind, and a line that calls it after its scope was left. -/
def closureInputs : List Input :=
  [.program
      "fun f() { var a = true; fun g() { return a; } return g; } var h = f();".toUTF8.data.toList,
    .line "h()".toUTF8.data.toList]

theorem occurrences_find_their_scopes_closure :
    (∀ native ∈ Native.standard, native.Honest) ∧ (accepted 0 closureInputs).length = 2 ∧
      (sequence (feed (Eval.evaluators 30)) closureInputs (start Native.standard {})).1.map
      (·.output) = ["", "true\n"] ∧
      (Uses.ids ((accepted 0 closureInputs).flatMap programUses)).Nodup ∧
      (∀ stop,
        sequence (feed (Eval.watchedEvaluators (scopeWatch (accepted 0 closureInputs)) stop 30))
          closureInputs (start Native.standard {}) =
        sequence (feed (Eval.evaluators 30)) closureInputs (start Native.standard {})) ∧
      ∀ report ∈ (sequence (feed (Eval.evaluators 30)) closureInputs (start Native.standard {})).1,
        ∀ fault, report.ending ≠ .fault fault :=
  ⟨Native.honest_standard, by decide +kernel, by decide +kernel,
    occurrences_find_their_scopes Native.standard Native.honest_standard {} closureInputs 30⟩

end Session
end TraitScript
