import TraitScript.Proofs.Parse.Written
import TraitScript.Proofs.Scope.Resolution
import TraitScript.Proofs.Session.Run

/-!
# Sessions that read text

Programs and lines are given to a session as text, one after another. Each is read from the counter
that the one before has left, so occurrences of different programs never share an id, and what
resolving has recorded for one program is not touched by those read later, rejected ones included.
At every moment of the session the distances of all programs that were run are therefore those of
their places, and a watch that follows from this is never violated.
-/

namespace TraitScript

/-! ### What resolving records -/

namespace Machine

theorem distances_note (m : Machine) (b : Resolve.Binding) (id : Nat) :
    (m.note b).distances[id]? =
      if b.id = id then b.distance.or m.distances[id]? else m.distances[id]? := by
  unfold note
  cases hdistance : b.distance with
  | none => simp
  | some distance =>
      show (m.distances.insert b.id distance)[id]? = _
      rw [Std.TreeMap.getElem?_insert]
      simp

/-- An occurrence about which nothing is recorded keeps what was known of it. -/
theorem distances_noteAll_of_notMem (m : Machine) (resolution : Resolution) {id : Nat}
    (hid : ∀ b ∈ resolution.bindings, b.id ≠ id) :
    (m.noteAll resolution).distances[id]? = m.distances[id]? := by
  obtain ⟨bindings, errors⟩ := resolution
  unfold noteAll
  simp only at hid ⊢
  induction bindings generalizing m with
  | nil => rfl
  | cons b rest ih =>
      have hrest : ∀ other ∈ rest, other.id ≠ id :=
        fun other hother => hid other (List.mem_cons_of_mem _ hother)
      rw [List.foldl_cons, ih (m.note b) hrest, distances_note,
        if_neg (hid b (List.mem_cons_self ..))]

/-- A new occurrence gets the distance that is recorded for it. -/
theorem distances_noteAll_of_mem (m : Machine) {resolution : Resolution}
    (hnodup : (resolution.bindings.map (·.id)).Nodup) {b : Resolve.Binding}
    (hb : b ∈ resolution.bindings) (hnew : m.distances[b.id]? = none) :
    (m.noteAll resolution).distances[b.id]? = b.distance := by
  obtain ⟨bindings, errors⟩ := resolution
  unfold noteAll
  simp only at hnodup hb ⊢
  induction bindings generalizing m with
  | nil => cases hb
  | cons first rest ih =>
      rw [List.map_cons, List.nodup_cons] at hnodup
      rw [List.foldl_cons]
      rcases List.mem_cons.1 hb with rfl | hrest
      · have hlater : ∀ other ∈ rest, other.id ≠ b.id :=
          fun other hother heq => hnodup.1 (heq ▸ List.mem_map_of_mem hother)
        have hkept := distances_noteAll_of_notMem (m.note b) ⟨rest, errors⟩ hlater
        unfold noteAll at hkept
        rw [hkept, distances_note, if_pos rfl, hnew, Option.or_none]
      · have hother : first.id ≠ b.id := fun heq => hnodup.1 (heq ▸ List.mem_map_of_mem hrest)
        exact ih (m.note first) (by rw [distances_note, if_neg hother, hnew]) hnodup.2 hrest

/-- Recording the same distances for other ids. -/
theorem distances_noteAll_renumbered {f : Nat → Nat} (hf : Function.Injective f)
    {resolution resolution' : Resolution}
    (h : List.Forall₂ (fun b b' => b'.id = f b.id ∧ b'.distance = b.distance) resolution.bindings
      resolution'.bindings)
    {m m' : Machine} (htables : ∀ id : Nat, m'.distances[f id]? = m.distances[id]?) (id : Nat) :
    (m'.noteAll resolution').distances[f id]? = (m.noteAll resolution).distances[id]? := by
  obtain ⟨bindings, _⟩ := resolution
  obtain ⟨bindings', _⟩ := resolution'
  unfold Machine.noteAll
  dsimp only at h ⊢
  induction h generalizing m m' with
  | nil => exact htables id
  | @cons b b' _ _ hb _ ih =>
      rw [List.foldl_cons, List.foldl_cons]
      apply ih
      intro id
      rw [distances_note, distances_note, hb.1, hb.2, htables]
      simp only [hf.eq_iff]

theorem distances_start (natives : List Native) (world : World) (id : Nat) :
    (start natives world).distances[id]? = none := by
  have hall : ∀ {m : Machine}, m.distances[id]? = none →
      (natives.foldl Machine.addNative m).distances[id]? = none := by
    induction natives with
    | nil => exact fun h => h
    | cons native rest ih => exact fun h => ih h
  exact hall rfl

end Machine

/-- Only occurrences of the program are recorded, each at most as often as it occurs. -/
theorem ids_bindings_sublist (us : Uses) :
    List.Sublist ((us.filterMap Resolve.binding?).map (·.id)) (Uses.ids us) := by
  induction us with
  | nil => exact .slnil
  | cons u rest ih =>
      obtain ⟨p, use⟩ := u
      rw [List.filterMap_cons, Uses.ids, List.filterMap_cons]
      cases hbinding : Resolve.binding? (p, use) with
      | some b =>
          simp only [Resolve.id?_of_binding? hbinding, List.map_cons]
          exact ih.cons_cons b.id
      | none =>
          cases use.id? with
          | none => exact ih
          | some id => exact ih.cons id

/-! ### Programs as read from text -/

/-- A program whose names and keywords are genuine, which resolving accepts, and whose distances are
recorded. -/
structure FromText (distances : Nat → Option Nat) (program : List Stmt) : Prop where
  genuine : Uses.Genuine (programUses program)
  accepted : ∀ u ∈ programUses program, Resolve.Accepted u.1 u.2
  recorded : ∀ u ∈ programUses program, ∀ id name, u.2.lookup? = some (id, name) →
      distances id = u.1.distance? name

/-- What the programs of a session contain, as long as they are read from text. -/
def Regime.text (programs : List (List Stmt)) (distances : Nat → Option Nat) : Regime where
  legal p use := ∃ program ∈ programs, FromText distances program ∧ (p, use) ∈ programUses program
  fromText := True
  distances := distances
  jump_inLoop := fun ⟨_, _, h, hu⟩ => h.accepted _ hu
  return_inFunction := fun ⟨_, _, h, hu⟩ => h.accepted _ hu
  declare_ordinary := fun _ _ _ ⟨_, _, h, hu⟩ => h.genuine _ hu
  write_ordinary := fun _ _ _ _ ⟨_, _, h, hu⟩ => h.genuine _ hu
  lookup_distance := fun _ _ _ _ _ ⟨_, _, h, hu⟩ hlookup => h.recorded _ hu _ _ hlookup
  super_keyword := fun _ _ _ _ ⟨_, _, h, hu⟩ => h.genuine _ hu
  reference_variable := fun _ _ _ ⟨_, _, h, hu⟩ => h.genuine _ hu
  super_inMember := fun _ _ _ _ ⟨_, _, h, hu⟩ =>
    supersInMembers_programUses h.genuine _ _ _ hu (h.accepted _ hu)

/-! ### Reading -/

/-- What can be given to a session. -/
inductive Input where
  | program (source : Source)
  | line (source : Source)

/-- The statements of an input without lexical and syntax errors, and the next free `id`. -/
def Input.read (firstId : Nat) : Input → Option (List Stmt) × Nat
  | .program source =>
    let scanned := Scanned.ofSource source
    let parsed := parseProgram scanned firstId
    (if (scanned.errors ++ parsed.diagnostics).isEmpty then some parsed.value else none,
      parsed.nextId)
  | .line source =>
    let scanned := Scanned.ofSource source
    if scanned.errors.isEmpty then
      let (parsed, nextId) := Session.parseLine scanned firstId
      (parsed.toOption, nextId)
    else (none, firstId)

/-- A line that is read as an expression is numbered after the attempt to read it as a program. -/
theorem Session.parseLine_written (source : Source) (firstId : Nat) :
    firstId ≤ (parseLine (.ofSource source) firstId).2 ∧
      ∀ statements, (parseLine (.ofSource source) firstId).1 = .ok statements →
      Uses.Written .genuine firstId (parseLine (.ofSource source) firstId).2
      (programUses statements) := by
  obtain ⟨hle, hprogram⟩ := parseProgram_written source firstId
  obtain ⟨hle', hexpression⟩ :=
    parseExpression_written source (parseProgram (.ofSource source) firstId).nextId
  unfold parseLine
  dsimp only
  split
  · refine ⟨hle, fun statements hstatements => ?_⟩
    rw [← Except.ok.inj hstatements]
    exact hprogram
  · split
    · exact ⟨hle, nofun⟩
    · split
      next expr hvalue _ =>
        refine ⟨Nat.le_trans hle hle', fun statements hstatements => ?_⟩
        rw [← Except.ok.inj hstatements]
        exact (written_print (hexpression expr hvalue)).mono hle (Nat.le_refl _)
      next => exact ⟨Nat.le_trans hle hle', nofun⟩

theorem Input.read_written (input : Input) (firstId : Nat) :
    firstId ≤ (input.read firstId).2 ∧ ∀ statements, (input.read firstId).1 = some statements →
      Uses.Written .genuine firstId (input.read firstId).2 (programUses statements) := by
  cases input with
  | program source =>
      obtain ⟨hle, hwritten⟩ := parseProgram_written source firstId
      refine ⟨hle, fun statements hstatements => ?_⟩
      simp only [Input.read] at hstatements
      split at hstatements <;> cases hstatements
      exact hwritten
  | line source =>
      obtain ⟨hle, hwritten⟩ := Session.parseLine_written source firstId
      simp only [Input.read]
      split
      · refine ⟨hle, fun statements hstatements => hwritten statements ?_⟩
        cases hparsed : (Session.parseLine (.ofSource source) firstId).1 with
        | ok found =>
            simp only [hparsed, Except.toOption, Option.some.injEq] at hstatements
            rw [hstatements]
        | error errors =>
            simp only [hparsed, Except.toOption] at hstatements
            cases hstatements
      · exact ⟨Nat.le_refl _, nofun⟩

namespace Session

/-- Gives one input to a session. -/
def feed (self : Eval.Evaluators) (s : Session) : Input → Report × Session
  | .program source => s.programWith self source
  | .line source => s.lineWith self source

/-- The programs that are run when inputs are given one after another. -/
def accepted : (firstId : Nat) → List Input → List (List Stmt)
  | _, [] => []
  | firstId, input :: rest =>
    let later := accepted (input.read firstId).2 rest
    match (input.read firstId).1 with
    | some statements =>
      if (TraitScript.resolve statements).errors.isEmpty then statements :: later else later
    | none => later

/-- No two occurrences in the programs of a session share an id. -/
theorem accepted_written (firstId : Nat) (inputs : List Input) :
    ∃ nextId, firstId ≤ nextId ∧
      Uses.Written .genuine firstId nextId ((accepted firstId inputs).flatMap programUses) := by
  induction inputs generalizing firstId with
  | nil => exact ⟨firstId, Nat.le_refl _, .nil⟩
  | cons input rest ih =>
      obtain ⟨hle, hread⟩ := input.read_written firstId
      obtain ⟨nextId, hnext, hlater⟩ := ih (input.read firstId).2
      refine ⟨nextId, Nat.le_trans hle hnext, ?_⟩
      have hskip := hlater.mono hle (Nat.le_refl _)
      cases hstatements : (input.read firstId).1 with
      | none => simpa only [accepted, hstatements] using hskip
      | some statements =>
          simp only [accepted, hstatements]
          split
          · rw [List.flatMap_cons]
            exact (hread statements hstatements).append hlater hle hnext
          · exact hskip

/-- An input is read from the session's counter; then it is resolved and run, or rejected. -/
theorem feed_eq (s : Session) (input : Input) :
    (∃ statements, (input.read s.nextId).1 = some statements ∧
      ∀ self, s.feed self input =
        { s with nextId := (input.read s.nextId).2 }.resolveAndExecute self statements) ∨
    ((input.read s.nextId).1 = none ∧
      ∃ errors, ∀ self, s.feed self input =
        (rejected errors, { s with nextId := (input.read s.nextId).2 })) := by
  cases input with
  | program source =>
      simp only [Input.read, feed, programWith]
      split
      · exact .inl ⟨_, rfl, fun _ => rfl⟩
      · exact .inr ⟨rfl, _, fun _ => rfl⟩
  | line source =>
      simp only [Input.read, feed, lineWith]
      split
      · cases hparsed : (parseLine (.ofSource source) s.nextId).1 with
        | ok statements => exact .inl ⟨statements, rfl, fun _ => rfl⟩
        | error errors => exact .inr ⟨rfl, _, fun _ => rfl⟩
      · exact .inr ⟨rfl, _, fun _ => rfl⟩

/-! ### Between two inputs -/

/-- A session in which programs have been run: what is recorded of them is known, and all ids from
the counter on are unused. -/
structure Reading (programs : List (List Stmt)) (distances : Nat → Option Nat) (s : Session) :
    Prop where
  sound : s.Sound (.text programs distances)
  fresh : ∀ id, s.nextId ≤ id → distances id = none
  older : ∀ program ∈ programs, ∀ id ∈ Uses.ids (programUses program), id < s.nextId

theorem reading_start {natives : List Native} (hnatives : ∀ native ∈ natives, native.Honest)
    (world : World) :
    (start natives world).Reading [] fun _ => none :=
  ⟨sound_start (fun _ _ => rfl) (fun native hnative => ⟨hnatives native hnative, trivial⟩) world,
    fun _ _ => rfl, nofun⟩

/-- What is known of distances once a program has been resolved. -/
def recordedBy (s : Session) (statements : List Stmt) (id : Nat) : Option Nat :=
  (s.machine.noteAll (TraitScript.resolve statements)).distances[id]?

variable {programs : List (List Stmt)} {distances : Nat → Option Nat} {s : Session} {nextId : Nat}
  {statements : List Stmt}

theorem mem_ids_of_mem_bindings {b : Resolve.Binding}
    (hb : b ∈ (TraitScript.resolve statements).bindings) :
    b.id ∈ Uses.ids (programUses statements) := by
  rw [(Resolve.resolve_programUses statements).1] at hb
  exact (ids_bindings_sublist _).subset (List.mem_map_of_mem hb)

/-- Ids outside a program keep what was known of them when it is resolved. -/
theorem Reading.recordedBy_of_notMem (hs : s.Reading programs distances) {id : Nat}
    (hid : id ∉ Uses.ids (programUses statements)) :
    s.recordedBy statements id = distances id := by
  have hother : ∀ b ∈ (TraitScript.resolve statements).bindings, b.id ≠ id :=
    fun b hb heq => hid (heq ▸ mem_ids_of_mem_bindings hb)
  have hkept := s.machine.distances_noteAll_of_notMem (TraitScript.resolve statements) hother
  exact hkept.trans (hs.sound.machine.distances trivial id)

/-- An accepted program has its distances recorded. -/
theorem Reading.fromText (hs : s.Reading programs distances)
    (hwritten : Uses.Written .genuine s.nextId nextId (programUses statements))
    (hnone : (TraitScript.resolve statements).errors = []) :
    FromText (s.recordedBy statements) statements := by
  obtain ⟨hbindings, haccepted⟩ := Resolve.resolve_programUses statements
  refine ⟨hwritten.meets, haccepted hnone, fun u hu id name hlookup => ?_⟩
  have hmem : ⟨id, name, u.1.distance? name⟩ ∈ (TraitScript.resolve statements).bindings := by
    rw [hbindings]
    exact List.mem_filterMap.2 ⟨u, hu, Resolve.binding?_of_lookup? (haccepted hnone u hu) hlookup⟩
  have hnodup : ((TraitScript.resolve statements).bindings.map (·.id)).Nodup := by
    rw [hbindings]
    exact (ids_bindings_sublist _).nodup hwritten.nodup
  have hunused : s.machine.distances[id]? = none := by
    rw [hs.sound.machine.distances trivial id]
    exact hs.fresh id (hwritten.range id (mem_ids_of_mem_bindings hmem)).1
  exact s.machine.distances_noteAll_of_mem hnodup hmem hunused

/-- Programs that were run before keep their distances. -/
theorem Reading.fromText_of_mem (hs : s.Reading programs distances)
    (hwritten : Uses.Written .genuine s.nextId nextId (programUses statements))
    {program : List Stmt} (hprogram : program ∈ programs) (h : FromText distances program) :
    FromText (s.recordedBy statements) program := by
  refine ⟨h.genuine, h.accepted, fun u hu id name hlookup => ?_⟩
  have hmem : id ∈ Uses.ids (programUses program) :=
    List.mem_filterMap.2 ⟨u, hu, by rw [Use.id?, hlookup]; rfl⟩
  have holder := hs.older program hprogram id hmem
  rw [hs.recordedBy_of_notMem fun hid =>
    Nat.lt_irrefl _ (Nat.lt_of_lt_of_le holder (hwritten.range id hid).1)]
  exact h.recorded u hu id name hlookup

/-- Resolving a program that was just read; if it is rejected nothing is added to the programs. -/
theorem Reading.resolve (hs : s.Reading programs distances) (hle : s.nextId ≤ nextId)
    (hwritten : Uses.Written .genuine s.nextId nextId (programUses statements))
    (programs' : List (List Stmt)) (hkeep : ∀ program ∈ programs, program ∈ programs')
    (hadd : ∀ program ∈ programs', program = statements ∨ program ∈ programs) :
    ({ s with nextId := nextId }.resolve statements).2.Reading programs'
      (s.recordedBy statements) := by
  refine ⟨⟨?_, ?_⟩, fun id hid => ?_, fun program hprogram id hid => ?_⟩
  · refine hs.sound.machine.noteAll (fun p use h => ?_) (fun _ _ => trivial) _ fun _ =>
      ⟨trivial, fun id => rfl⟩
    obtain ⟨program, hprogram, htext, hmem⟩ := h
    exact ⟨program, hkeep program hprogram, hs.fromText_of_mem hwritten hprogram htext, hmem⟩
  · obtain ⟨found, hm⟩ := s.machine.noteAll_eq (TraitScript.resolve statements)
    show (s.machine.noteAll _).current = (s.machine.noteAll _).globals
    rw [hm]
    exact hs.sound.current
  · have hid' : nextId ≤ id := hid
    rw [hs.recordedBy_of_notMem fun hmem =>
      Nat.lt_irrefl _ (Nat.lt_of_lt_of_le (hwritten.range id hmem).2 hid')]
    exact hs.fresh id (Nat.le_trans hle hid')
  · show id < nextId
    rcases hadd program hprogram with rfl | hold
    · exact (hwritten.range id hid).2
    · exact Nat.lt_of_lt_of_le (hs.older program hold id hid) hle

/-! ### Whole sessions -/

/-- A session before further inputs, all of whose programs are among given ones. -/
def Underway (programs : List (List Stmt)) (rest : List Input) (s : Session) : Prop :=
  ∃ done distances, s.Reading done distances ∧ (∀ program ∈ done, program ∈ programs) ∧
    ∀ program ∈ accepted s.nextId rest, program ∈ programs

/-- Evaluators under which some of the programs, with any that ran before, run as they do
without. -/
def RunsAllAlike (programs : List (List Stmt)) (fuel : Nat) (self : Eval.Evaluators) : Prop :=
  ∀ done distances, (∀ program ∈ done, program ∈ programs) →
    Eval.RunsAlike (.text done distances) fuel self

/-- A watch that follows from what is known of some of the programs. -/
def FollowsAll (programs : List (List Stmt)) (W : Watch) : Prop :=
  ∀ done distances, (∀ program ∈ done, program ∈ programs) → Eval.Follows (.text done distances) W

theorem nextId_executeWith (self : Eval.Evaluators) (s : Session) (statements : List Stmt) :
    (s.executeWith self statements).2.nextId = s.nextId := by
  unfold executeWith
  split <;> rfl

theorem feed_alike {self : Eval.Evaluators} {fuel : Nat} (hself : RunsAllAlike programs fuel self)
    (input : Input) (rest : List Input) (hs : s.Underway programs (input :: rest)) :
    s.feed self input = s.feed (Eval.evaluators fuel) input ∧
      (s.feed (Eval.evaluators fuel) input).2.Underway programs rest ∧
      ∀ fault, (s.feed (Eval.evaluators fuel) input).1.ending ≠ .fault fault := by
  obtain ⟨done, distances, hreading, hdone, hrest⟩ := hs
  obtain ⟨hle, hread⟩ := input.read_written s.nextId
  rcases s.feed_eq input with ⟨statements, hstatements, hfeed⟩ | ⟨hnone, errors, hfeed⟩
  · have hwritten := hread statements hstatements
    rw [hfeed, hfeed]
    simp only [resolveAndExecute]
    split
    next haccepted =>
      have herrors : (TraitScript.resolve statements).errors = [] := List.isEmpty_iff.1 haccepted
      simp only [accepted, hstatements, herrors, List.isEmpty_nil, if_true, List.mem_cons,
        forall_eq_or_imp] at hrest
      have hresolved := hreading.resolve hle hwritten (statements :: done)
        (fun program h => List.mem_cons_of_mem _ h)
        fun program h => List.mem_cons.1 h
      have hall : ∀ program ∈ statements :: done, program ∈ programs :=
        List.forall_mem_cons.2 ⟨hrest.1, hdone⟩
      have hallows : Regime.Allows (.text (statements :: done) (s.recordedBy statements))
          (programUses statements) :=
        fun u hu => ⟨statements, List.mem_cons_self .., hreading.fromText hwritten herrors, hu⟩
      obtain ⟨heq, hsound, hending⟩ := executeWith_alike (hself _ _ hall) hresolved.sound hallows
      have hnext := nextId_executeWith (Eval.evaluators fuel)
        ({ s with nextId := (input.read s.nextId).2 }.resolve statements).2 statements
      refine ⟨heq, ⟨statements :: done, _, ⟨hsound, ?_, ?_⟩, hall, ?_⟩, hending.2 trivial⟩
      · rw [hnext]
        exact hresolved.fresh
      · rw [hnext]
        exact hresolved.older
      · rw [hnext]
        exact hrest.2
    next hrejected =>
      have herrors : ¬ (TraitScript.resolve statements).errors.isEmpty = true := hrejected
      simp only [accepted, hstatements, if_neg herrors] at hrest
      have hresolved := hreading.resolve hle hwritten done (fun _ h => h) fun _ h => .inr h
      exact ⟨rfl, ⟨done, _, hresolved, hdone, hrest⟩, nofun⟩
  · rw [hfeed, hfeed]
    simp only [accepted, hnone] at hrest
    refine ⟨rfl, ⟨done, distances, ⟨⟨hreading.sound.machine, hreading.sound.current⟩, ?_, ?_⟩,
      hdone, hrest⟩, nofun⟩
    · exact fun id hid => hreading.fresh id (Nat.le_trans hle hid)
    · exact fun program hprogram id hid =>
        Nat.lt_of_lt_of_le (hreading.older program hprogram id hid) hle

/-- In a session that starts from nothing evaluators that run all its programs alike make no
difference. -/
theorem sequence_alike {natives : List Native} (hnatives : ∀ native ∈ natives, native.Honest)
    (world : World) (inputs : List Input) {self : Eval.Evaluators} {fuel : Nat}
    (hself : RunsAllAlike (accepted 0 inputs) fuel self) :
    sequence (feed self) inputs (start natives world) =
      sequence (feed (Eval.evaluators fuel)) inputs (start natives world) ∧
      (∀ report ∈ (sequence (feed (Eval.evaluators fuel)) inputs (start natives world)).1, ∀ fault,
          report.ending ≠ .fault fault) ∧
      ∃ done distances, (sequence (feed (Eval.evaluators fuel)) inputs
          (start natives world)).2.Reading done distances := by
  have hstart : (start natives world).Underway (accepted 0 inputs) inputs :=
    ⟨[], _, reading_start hnatives world, nofun, fun _ h => h⟩
  obtain ⟨heq, hreports, done, distances, hreading, -⟩ :=
    sequence_congr (Underway (accepted 0 inputs))
    (fun report => ∀ fault, report.ending ≠ .fault fault)
      (fun s input rest hs => feed_alike hself input rest hs) inputs hstart
  exact ⟨heq, hreports, done, distances, hreading⟩

/-- A watch over all the programs makes no difference, and no report ends in a fault. -/
theorem sequence_watched {natives : List Native} (hnatives : ∀ native ∈ natives, native.Honest)
    (world : World) (inputs : List Input) {W : Watch} (hW : FollowsAll (accepted 0 inputs) W)
    (fuel : Nat) :
    (∀ stop, sequence (feed (Eval.watchedEvaluators W stop fuel)) inputs (start natives world) =
        sequence (feed (Eval.evaluators fuel)) inputs (start natives world)) ∧
      ∀ report ∈ (sequence (feed (Eval.evaluators fuel)) inputs (start natives world)).1, ∀ fault,
        report.ending ≠ .fault fault := by
  have halike : ∀ stop, RunsAllAlike (accepted 0 inputs) fuel
      (Eval.watchedEvaluators W stop fuel) := fun stop done distances hdone =>
    Eval.runsAlike_watched (hW done distances hdone) stop fuel
  have hall := fun stop => sequence_alike hnatives world inputs (halike stop)
  exact ⟨fun stop => (hall stop).1, (hall .outOfFuel).2.1⟩

end Session

/-! ### What is known of one program -/

section Known

variable {lo hi : Nat} {statements : List Stmt} {b : Resolve.Binding}

theorem nodup_ids_bindings (hwritten : Uses.Written .genuine lo hi (programUses statements)) :
    ((resolve statements).bindings.map (·.id)).Nodup := by
  rw [(Resolve.resolve_programUses statements).1]
  exact (ids_bindings_sublist _).nodup hwritten.nodup

theorem id_of_mem_bindings (hwritten : Uses.Written .genuine lo hi (programUses statements))
    (hb : b ∈ (resolve statements).bindings) : lo ≤ b.id ∧ b.id < hi :=
  hwritten.range b.id (Session.mem_ids_of_mem_bindings hb)

/-- A table that knows what resolving a program finds. -/
def knownDistances (statements : List Stmt) (id : Nat) : Option Nat :=
  ((Machine.bare {}).noteAll (resolve statements)).distances[id]?

theorem knownDistances_of_mem (hwritten : Uses.Written .genuine lo hi (programUses statements))
    (hb : b ∈ (resolve statements).bindings) :
    knownDistances statements b.id = b.distance :=
  Machine.distances_noteAll_of_mem _ (nodup_ids_bindings hwritten) hb rfl

end Known

end TraitScript
