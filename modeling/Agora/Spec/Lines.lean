import Agora.Code.HttpContext

/-!
# Lines

A line is a byte string without CR LF; in a stream CR LF stands behind it.
-/

namespace Agora

/-! ## `cut` -/

theorem cut_eq_none_iff {c : Byte} {l : List Byte} : cut c l = none ↔ c ∉ l := by
  induction l with
  | nil => simp [cut]
  | cons a l ih =>
    unfold cut
    split
    · rename_i ha
      simp [ha]
    · rename_i ha
      rw [Option.map_eq_none_iff, ih, List.mem_cons, not_or]
      exact ⟨fun h => ⟨fun heq => ha heq.symm, h⟩, fun h => h.2⟩

theorem cut_append {c : Byte} {front : List Byte} (h : c ∉ front) (back : List Byte) :
    cut c (front ++ c :: back) = some (front, back) := by
  induction front with
  | nil => simp [cut]
  | cons a front ih =>
    obtain ⟨ha, hfront⟩ := not_or.mp (mt List.mem_cons.mpr h)
    rw [List.cons_append, cut, if_neg (fun heq => ha heq.symm), ih hfront]
    rfl

theorem cut_eq_some_iff {c : Byte} {l front back : List Byte} :
    cut c l = some (front, back) ↔ l = front ++ c :: back ∧ c ∉ front := by
  refine ⟨fun h => ?_, ?_⟩
  · induction l generalizing front with
    | nil => cases h
    | cons a l ih =>
      unfold cut at h
      split at h
      · rename_i ha
        cases h
        exact ⟨by rw [ha, List.nil_append], List.not_mem_nil⟩
      · rename_i ha
        obtain ⟨⟨first, rest⟩, hrest, heq⟩ := Option.map_eq_some_iff.mp h
        cases heq
        obtain ⟨hl, hfirst⟩ := ih hrest
        rw [hl, List.cons_append, List.mem_cons, not_or]
        exact ⟨rfl, fun heq => ha heq.symm, hfirst⟩
  · rintro ⟨rfl, hfront⟩
    exact cut_append hfront back

namespace Spec

abbrev Line (l : List Byte) : Prop := firstCRLF l = none

/-- The line as it stands in a stream. -/
def ended (line : List Byte) : List Byte := line ++ [CR, LF]

@[simp] theorem take_ended (line rest : List Byte) :
    (ended line ++ rest).take line.length = line := by simp [ended]

@[simp] theorem drop_ended (line rest : List Byte) :
    (ended line ++ rest).drop (line.length + 2) = rest := by simp [ended]

theorem Line.of_noCR {l : List Byte} (h : CR ∉ l) : Line l := by
  rw [Line, firstCRLF_none_iff]
  exact fun i hi => h (List.mem_of_getElem? hi.1)

theorem Line.firstCRLF_ended {line : List Byte} (h : Line line) (rest : List Byte) :
    firstCRLF (ended line ++ rest) = some line.length := by
  unfold ended
  rw [List.append_assoc]
  refine (firstCRLF_some_iff _ _).mpr ⟨?_, fun j hj hat => ?_⟩
  · simp [crlfAt]
  · obtain ⟨hcr, hlf⟩ := hat
    rw [List.getElem?_append_left hj] at hcr
    refine (firstCRLF_none_iff line).mp h j ⟨hcr, ?_⟩
    -- The last byte of the line has CR behind it, not LF.
    rcases Nat.lt_or_ge (j + 1) line.length with hin | hout
    · rwa [List.getElem?_append_left hin] at hlf
    · obtain heq : j + 1 = line.length := by omega
      rw [List.getElem?_append_right hout, heq, Nat.sub_self] at hlf
      exact absurd (Option.some.inj hlf) (by decide)

theorem exists_line {l : List Byte} {i : Nat} (h : firstCRLF l = some i) :
    ∃ line rest, Line line ∧ l = ended line ++ rest := by
  obtain ⟨⟨hcr, hlf⟩, hfirst⟩ := (firstCRLF_some_iff l i).mp h
  have hlen := firstCRLF_length h
  refine ⟨l.take i, l.drop (i + 2), ?_, ?_⟩
  · rw [Line, firstCRLF_none_iff]
    intro j hat
    have hj := crlfAt_length hat
    rw [List.length_take] at hj
    obtain ⟨hcr', hlf'⟩ := hat
    rw [List.getElem?_take_of_lt (by omega)] at hcr' hlf'
    exact hfirst j (by omega) ⟨hcr', hlf'⟩
  · have hsplit : l.drop i = CR :: LF :: l.drop (i + 2) := by
      rw [List.drop_eq_getElem_cons (by omega), List.drop_eq_getElem_cons (by omega)]
      rw [(List.getElem?_eq_some_iff.mp hcr).2, (List.getElem?_eq_some_iff.mp hlf).2]
    unfold ended
    rw [List.append_assoc, List.cons_append, List.cons_append, List.nil_append, ← hsplit,
      List.take_append_drop]

end Spec

end Agora
