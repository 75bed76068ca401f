import TraitScript.Proofs.Token.Cursor
import TraitScript.Proofs.Token.Pieces

/-!
# Lines

The line of an item is one more than the number of line breaks before its end. A scan counts them
piece by piece, a cursor wherever it takes one: between items, in a string, in a block comment, and
after a line comment, which leaves its line break to what comes next.
-/

namespace TraitScript.Scan

/-- The line of an item counts the line breaks from where scanning starts up to its end. -/
theorem line_of_mem_itemsAt {source : Source} {start line : Nat} {item : Item}
    (h : item ∈ itemsAt start line source) :
    item.line = line + (source.take (item.stop - start)).count newline := by
  induction source using piece_induction generalizing start line with
  | nil =>
      obtain rfl := List.mem_singleton.1 h
      simp
  | piece first front after shape hpiece ih =>
      rw [itemsAt_piece start line hpiece, List.mem_append, Option.mem_toList] at h
      rw [← List.cons_append]
      rcases h with hhere | hlater
      · obtain ⟨-, -, hstop, hline⟩ := mem_pieceItem hhere
        rw [hstop, Nat.add_sub_cancel_left, List.take_left]
        exact hline
      · obtain ⟨hstart, hspan⟩ := bounds_of_mem_itemsAt hlater
        have hlength : item.stop - start =
            (first :: front).length + (item.stop - (start + (first :: front).length)) := by omega
        rw [hlength, List.take_length_add_append, List.count_append, ← Nat.add_assoc]
        exact ih hlater

theorem line_of_mem_scan {source : Source} {item : Item} (h : item ∈ scan source) :
    item.line = 1 + (source.take item.stop).count newline :=
  line_of_mem_itemsAt h

/-- An item that ends later is on a later line or on the same. -/
theorem line_le_line {source : Source} {item later : Item} (hitem : item ∈ scan source)
    (hlater : later ∈ scan source) (h : item.stop ≤ later.stop) :
    item.line ≤ later.line := by
  rw [line_of_mem_scan hitem, line_of_mem_scan hlater]
  exact Nat.add_le_add_left ((List.take_sublist_take_left h).count_le newline) 1

/-- Items end one after another. -/
theorem pairwise_stop_scan (source : Source) :
    (scan source).Pairwise fun item later => item.stop ≤ later.stop := by
  obtain ⟨front, line, hfront, hpairs, hitems⟩ := (covers_scan source).exists_front
  rw [hfront, List.pairwise_append]
  refine ⟨hpairs.imp_of_mem fun hitem hlater hle => ?_, List.pairwise_singleton _ _,
    fun item hitem later hlater => ?_⟩
  · exact Nat.le_trans hle (Nat.le_of_lt (hitems _ hlater).2.1)
  · obtain rfl := List.mem_singleton.1 hlater
    exact (hitems item hitem).2.2.1

/-- Every item is on the line that follows the line breaks before its end, whether it is a token, a
fault or the end of the source. So lines never go down from one item to the next, and the end of the
source is on its last line. A cursor that counts line breaks as it takes them yields these items,
with these lines. -/
theorem items_on_their_lines (source : Source) :
    (∀ item ∈ scan source, item.line = 1 + (source.take item.stop).count newline) ∧
    (scan source).Pairwise (fun item later => item.line ≤ later.line) ∧
    (∃ front, scan source = front ++ [endAt source.length (1 + source.count newline)]) ∧
    ∀ asked, Cursor.answer source {} asked = .ok (scan source)[asked]? := by
  refine ⟨fun item hitem => line_of_mem_scan hitem, ?_, ?_, fun asked => ?_⟩
  · exact (pairwise_stop_scan source).imp_of_mem fun hitem hlater hle =>
      line_le_line hitem hlater hle
  · obtain ⟨front, line, hfront, -⟩ := (covers_scan source).exists_front
    have hend : endAt source.length line ∈ scan source := by simp [hfront]
    have hline : line = 1 + (source.take source.length).count newline := line_of_mem_scan hend
    rw [List.take_length] at hline
    exact ⟨front, by rw [hfront, hline]⟩
  · have hupcoming : Cursor.upcoming source {} = scan source := if_pos (Nat.zero_le _)
    rw [Cursor.answer_eq, hupcoming]

end TraitScript.Scan
