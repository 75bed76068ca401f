import TraitScript.Proofs.Token.Coverage

/-!
# Scanning piece by piece

A source is its first piece and a source after it, and its items are the finding of that piece, if
it has one, and the items of what comes after. The bound that scanning carries is left behind here.
-/

namespace TraitScript.Scan

/-- The items of a source that starts at an offset on a line. -/
def itemsAt (start line : Nat) (source : Source) : List Item :=
  itemsFrom source.length start line source

theorem scan_eq_itemsAt (source : Source) : scan source = itemsAt 0 1 source := rfl

section Pieces

variable {first : UInt8} {front after source : List UInt8} {shape : Shape}
  {start line : Nat} {item : Item}

/-- The item of one piece, if it has a finding. -/
def pieceItem (start line : Nat) (shape : Shape) (bytes : List UInt8) : Option Item :=
  (findingOf shape bytes).map fun finding =>
    ⟨start, start + bytes.length, line + bytes.count newline, finding⟩

theorem itemsAt_piece (start line : Nat)
    (h : munch first (front ++ after) = ⟨shape, front.length⟩) :
    itemsAt start line (first :: (front ++ after)) =
      (pieceItem start line shape (first :: front)).toList ++
      itemsAt (start + (first :: front).length) (line + (first :: front).count newline) after := by
  have hstop : start + 1 + front.length = start + (first :: front).length := by
    rw [List.length_cons]
    omega
  rw [itemsAt, List.length_cons, itemsFrom_cons _ start line h]
  dsimp only
  rw [List.take_left, List.drop_left, hstop]
  congr 1
  apply itemsFrom_of_le
  · rw [List.length_append]
    exact Nat.le_add_left ..
  · exact Nat.le_refl _

/-- To prove something of all sources, it is enough to prove it when one piece comes in front. -/
theorem piece_induction {P : Source → Prop} (nil : P [])
    (piece : ∀ first front after shape, munch first (front ++ after) = ⟨shape, front.length⟩ →
      P after → P (first :: (front ++ after)))
    (source : Source) : P source := by
  induction hlength : source.length using Nat.strongRecOn generalizing source with
  | _ length ih =>
      cases source with
      | nil => exact nil
      | cons first rest =>
          obtain ⟨front, after, rfl, hfront⟩ :
              ∃ front after, rest = front ++ after ∧ front.length = (munch first rest).extra :=
            ⟨_, _, (List.take_append_drop (munch first rest).extra rest).symm,
              List.length_take_of_le (fits_munch first rest).1⟩
          apply piece first front after (munch first (front ++ after)).shape
          · rw [hfront]
          · apply ih after.length _ after rfl
            rw [← hlength, List.length_cons, List.length_append]
            omega

theorem itemsAt_moved (bytes lines start line : Nat) (source : Source) :
    itemsAt (start + bytes) (line + lines) source =
      (itemsAt start line source).map (·.moved bytes lines) := itemsFrom_moved ..

theorem mem_pieceItem {bytes : List UInt8} (h : item ∈ pieceItem start line shape bytes) :
    findingOf shape bytes = some item.finding ∧ item.start = start ∧
      item.stop = start + bytes.length ∧ item.line = line + bytes.count newline := by
  obtain ⟨finding, hfinding, rfl⟩ := Option.map_eq_some_iff.1 h
  exact ⟨hfinding, rfl, rfl, rfl⟩

/-- Items start where their source does at the earliest. -/
theorem bounds_of_mem_itemsAt (h : item ∈ itemsAt start line source) :
    start ≤ item.start ∧ item.start ≤ item.stop := by
  induction source using piece_induction generalizing start line with
  | nil =>
      obtain rfl := List.mem_singleton.1 h
      exact ⟨Nat.le_refl _, Nat.le_refl _⟩
  | piece first front after shape hpiece ih =>
      rw [itemsAt_piece start line hpiece, List.mem_append, Option.mem_toList] at h
      rcases h with hhere | hlater
      · obtain ⟨-, hstart, hstop, -⟩ := mem_pieceItem hhere
        rw [hstart, hstop]
        exact ⟨Nat.le_refl _, Nat.le_add_right ..⟩
      · obtain ⟨hstart, hspan⟩ := ih hlater
        exact ⟨by omega, hspan⟩

/-- A piece that is a token stands for the text of the token, and ends before any blank. -/
theorem lexeme_of_findingOf {bytes : List UInt8} {kind : Token.Kind} {lexeme : String}
    (h : findingOf shape bytes = some (.token kind lexeme)) :
    Utf8.encode lexeme = bytes ∧ ∀ after, shape.EndsBefore bytes after := by
  unfold findingOf at h
  cases hdecoded : Utf8.decode? bytes with
  | none =>
      simp only [hdecoded] at h
      cases shape <;> cases h
  | some text =>
      simp only [hdecoded] at h
      cases shape with
      | trivia | fault _ => cases h
      | symbol _ | word | number | string =>
          cases h
          exact ⟨Utf8.decode?_eq_some_iff.1 hdecoded, fun _ => trivial⟩

end Pieces

end TraitScript.Scan
